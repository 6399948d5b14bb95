import Mathlib.Tactic

namespace BlueRdma

/-- A map whose entries stand in the order of their keys. -/
structure SortedMap (κ α : Type) [LT κ] where
  entries : List (κ × α)
  sorted : entries.Pairwise (fun e f => e.1<f.1)

namespace SortedMap
variable {κ α : Type} [LT κ]

def empty : SortedMap κ α := ⟨[],List.Pairwise.nil⟩

/-- The entries with keys up to `k`, the largest first. -/
def upTo [LE κ] [DecidableLE κ] (m : SortedMap κ α) (k : κ) : List (κ × α) :=
  (m.entries.filter (fun e => e.1≤k)).reverse

section Keys
variable [DecidableEq κ]

def get? (m : SortedMap κ α) (k : κ) : Option α := (m.entries.find? (fun e => e.1=k)).map Prod.snd

def erase (m : SortedMap κ α) (k : κ) : SortedMap κ α :=
  ⟨m.entries.filter (fun e => e.1≠k),m.sorted.sublist List.filter_sublist⟩

theorem mem_erase (m : SortedMap κ α) (k : κ) (e : κ × α) :
    e∈(m.erase k).entries ↔ e.1≠k ∧ e∈m.entries := by
  rw [erase,List.mem_filter,decide_eq_true_eq,and_comm]

end Keys

section Order
variable [LE κ] [Std.LawfulOrderLT κ]

/-- No key occurs twice. -/
theorem entry_unique (m : SortedMap κ α) (k : κ) (v w : α) (hv : (k,v)∈m.entries)
    (hw : (k,w)∈m.entries) : v=w := by
  have hnd : (m.entries.map Prod.fst).Nodup := by
    refine List.pairwise_map.mpr (m.sorted.imp ?_)
    intro e f hlt heq
    rw [heq] at hlt
    exact Std.lt_irrefl hlt
  exact congrArg Prod.snd (List.inj_on_of_nodup_map hnd hv hw rfl)

section Insert
variable [Std.IsLinearOrder κ] [DecidableLT κ]

theorem insert_sorted (m : SortedMap κ α) (k : κ) (v : α) :
    (m.entries.filter (fun e => e.1<k)++(k,v)::m.entries.filter (fun e => k<e.1)).Pairwise
      (fun e f => e.1<f.1) := by
  refine List.pairwise_append.mpr ⟨m.sorted.sublist List.filter_sublist,?_,?_⟩
  · refine List.pairwise_cons.mpr ⟨?_,m.sorted.sublist List.filter_sublist⟩
    intro e he
    simpa using (List.mem_filter.mp he).2
  · intro e he f hf
    have hek : e.1<k := by simpa using (List.mem_filter.mp he).2
    rcases List.mem_cons.mp hf with rfl|hf
    · exact hek
    · have hkf : k<f.1 := by simpa using (List.mem_filter.mp hf).2
      exact Std.lt_trans hek hkf

/-- The entry takes the place of the one with its key, if there is one. -/
def insert (m : SortedMap κ α) (k : κ) (v : α) : SortedMap κ α :=
  ⟨m.entries.filter (fun e => e.1<k)++(k,v)::m.entries.filter (fun e => k<e.1),m.insert_sorted k v⟩

theorem mem_insert (m : SortedMap κ α) (k : κ) (v : α) (e : κ × α) :
    e∈(m.insert k v).entries ↔ e=(k,v) ∨ e.1≠k ∧ e∈m.entries := by
  rw [insert,List.mem_append,List.mem_cons,List.mem_filter,List.mem_filter]
  simp only [decide_eq_true_eq]
  have hne : e.1<k ∨ k<e.1 ↔ e.1≠k := by
    constructor
    · rintro (h|h) rfl <;> exact Std.lt_irrefl h
    · intro h
      rcases Std.lt_trichotomy e.1 k with hlt|heq|hgt
      · exact Or.inl hlt
      · exact absurd heq h
      · exact Or.inr hgt
  rw [← hne]
  tauto

end Insert

section Lookup
variable [DecidableEq κ]

theorem get?_eq_some (m : SortedMap κ α) (k : κ) (v : α) :
    m.get? k=some v ↔ (k,v)∈m.entries := by
  rw [get?,Option.map_eq_some_iff]
  constructor
  · rintro ⟨e,he,rfl⟩
    have hk : e.1=k := by simpa using List.find?_some he
    rw [← hk]
    exact List.mem_of_find?_eq_some he
  · intro hmem
    rcases hf : m.entries.find? (fun e => e.1=k) with _|e
    · have := List.find?_eq_none.mp hf (k,v) hmem
      simp at this
    · have hk : e.1=k := by simpa using List.find?_some hf
      refine ⟨e,hf,m.entry_unique k e.2 v ?_ hmem⟩
      rw [← hk]
      exact List.mem_of_find?_eq_some hf

theorem get?_insert [Std.IsLinearOrder κ] [DecidableLT κ] (m : SortedMap κ α) (k l : κ) (v w : α) :
    (m.insert k v).get? l=some w ↔ l=k ∧ w=v ∨ l≠k ∧ m.get? l=some w := by
  rw [get?_eq_some,mem_insert,get?_eq_some,Prod.mk.injEq]

theorem get?_erase (m : SortedMap κ α) (k l : κ) (w : α) :
    (m.erase k).get? l=some w ↔ l≠k ∧ m.get? l=some w := by
  rw [get?_eq_some,mem_erase,get?_eq_some]

end Lookup
end Order
end SortedMap
end BlueRdma
