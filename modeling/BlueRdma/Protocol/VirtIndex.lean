import BlueRdma.Framework.Run
import BlueRdma.Protocol.PhysLookup

namespace BlueRdma
namespace PaVaMap

/-- The index leads to a range exactly from the virtual address where the range is mapped. -/
def Inverse (m : PaVaMap) : Prop :=
  ∀ va pa,m.vaToPa.get? va=some pa ↔ ∃ r,m.ranges.get? pa=some r ∧ r.vaStart=va

/-- The index is the inverse of the ranges. So every live range is found by its virtual address,
and only an address that is not in the index makes a removal panic. -/
structure Bidirectional (m : PaVaMap) : Prop where
  inverse : m.Inverse
  found : ∀ pa r,m.ranges.get? pa=some r → m.lookupByVa r.vaStart=some pa
  consistent : ∀ va,m.removeByVa va=none → m.lookupByVa va=none

/-- A new range is mapped where no other live range is. The one that starts at the same physical
address, if the check for overlaps lets it pass, is mapped there too. -/
def Fresh (m : PaVaMap) : PaVaOp → Prop
  | .insert g => ∀ pa r,m.ranges.get? pa=some r → (r.vaStart=g.va ↔ pa=g.pa)
  | _ => True

/-- One operation of a run without panics. -/
def next (d : Bool) (m : PaVaMap) (op : PaVaOp) : PaVaMap := (m.apply d op).getD m

theorem inverse_empty : Inverse {} := by
  simp [Inverse,SortedMap.get?,SortedMap.empty]

theorem Inverse.bidirectional (m : PaVaMap) (h : Inverse m) : Bidirectional m := by
  refine ⟨h,fun pa r hr => (h r.vaStart pa).mpr ⟨r,hr,rfl⟩,?_⟩
  intro va hpanic
  cases hva : m.vaToPa.get? va with
  | none => exact hva
  | some pa =>
      obtain ⟨r,hr,-⟩ := (h va pa).mp hva
      simp [removeByVa,hva,hr] at hpanic

theorem bidirectional_iff (m : PaVaMap) : Bidirectional m ↔ Inverse m :=
  ⟨Bidirectional.inverse,Inverse.bidirectional m⟩

/-- No condition on the virtual address is checked. -/
theorem insert_eq (d : Bool) (m m' : PaVaMap) (pa va size : UInt64)
    (h : m.insert d pa va size=some m') :
    m'=⟨m.ranges.insert pa ⟨pa,pa+size,va⟩,m.vaToPa.insert va pa⟩ := by
  rw [PaVaMap.insert] at h
  dsimp only at h
  split_ifs at h
  exact (Option.some.inj h).symm

section
variable (m : PaVaMap) (h : Inverse m)
include h

/-- The entry that the new one hides in either map must be of the same range. -/
theorem Inverse.insert_iff (d : Bool) (m' : PaVaMap) (g : Region)
    (hm : m.insert d g.pa g.va g.size=some m') : Inverse m' ↔ m.Fresh (.insert g) := by
  obtain rfl := insert_eq d m m' _ _ _ hm
  simp only [Inverse,SortedMap.get?_insert]
  constructor
  · intro hinv pa r hr
    constructor
    · intro hva
      by_contra hpa
      rcases (hinv g.va pa).mpr ⟨r,Or.inr ⟨hpa,hr⟩,hva⟩ with ⟨-,heq⟩|⟨hne,-⟩
      · exact hpa heq
      · exact hne rfl
    · rintro rfl
      by_contra hva
      have hold := (h r.vaStart g.pa).mpr ⟨r,hr,rfl⟩
      obtain ⟨r',⟨-,rfl⟩|⟨hne,-⟩,heq⟩ := (hinv r.vaStart g.pa).mp (Or.inr ⟨hva,hold⟩)
      · exact hva heq.symm
      · exact hne rfl
  · intro hfresh va pa
    rw [h va pa]
    constructor
    · rintro (⟨rfl,rfl⟩|⟨hva,r,hr,rfl⟩)
      · exact ⟨_,Or.inl ⟨rfl,rfl⟩,rfl⟩
      · exact ⟨r,Or.inr ⟨fun hpa => hva ((hfresh pa r hr).mpr hpa),hr⟩,rfl⟩
    · rintro ⟨r,⟨rfl,rfl⟩|⟨hpa,hr⟩,rfl⟩
      · exact Or.inl ⟨rfl,rfl⟩
      · exact Or.inr ⟨fun hva => hpa ((hfresh pa r hr).mp hva),r,hr,rfl⟩

/-- A range and its entry in the index go together. -/
theorem Inverse.erase (pa : UInt64) (r : AddressRange) (hr : m.ranges.get? pa=some r) :
    Inverse ⟨m.ranges.erase pa,m.vaToPa.erase r.vaStart⟩ := by
  have hself := (h r.vaStart pa).mpr ⟨r,hr,rfl⟩
  intro va pa'
  simp only [SortedMap.get?_erase]
  rw [h va pa']
  constructor
  · rintro ⟨hva,r',hr',rfl⟩
    refine ⟨r',⟨?_,hr'⟩,rfl⟩
    rintro rfl
    rw [hr] at hr'
    exact hva (congrArg AddressRange.vaStart (Option.some.inj hr').symm)
  · rintro ⟨r',⟨hpa,hr'⟩,rfl⟩
    refine ⟨?_,r',hr',rfl⟩
    intro heq
    have hother := (h r'.vaStart pa').mpr ⟨r',hr',rfl⟩
    rw [heq,hself] at hother
    exact hpa (Option.some.inj hother).symm

theorem Inverse.remove (m' : PaVaMap) (pa : UInt64) (hm : m.remove pa=some m') : Inverse m' := by
  rw [PaVaMap.remove] at hm
  split at hm
  · cases hm
  next r hr =>
    obtain rfl := Option.some.inj hm
    exact h.erase m pa r hr

theorem Inverse.removeByVa (m' : PaVaMap) (va : UInt64) (hm : m.removeByVa va=some m') :
    Inverse m' := by
  rw [PaVaMap.removeByVa] at hm
  split at hm
  · cases hm
  next pa hva =>
    obtain ⟨r,hr,rfl⟩ := (h va pa).mp hva
    rw [hr] at hm
    obtain rfl := Option.some.inj hm
    exact h.erase m pa r hr

/-- One operation that does not panic. -/
theorem Inverse.next_iff (d : Bool) (op : PaVaOp) (hok : (m.apply d op).isSome) :
    Inverse (m.next d op) ↔ m.Fresh op := by
  obtain ⟨m',hm⟩ := Option.isSome_iff_exists.mp hok
  rw [next,hm,Option.getD_some]
  cases op with
  | insert g => exact h.insert_iff m d m' g hm
  | remove pa => exact iff_of_true (h.remove m m' pa hm) trivial
  | removeByVa va => exact iff_of_true (h.removeByVa m m' va hm) trivial

end

/-- Over a run of operations that does not panic, the map stays bidirectional exactly if every new
range is mapped where no other live range is. -/
theorem bidirectional_along_iff (d : Bool) (ops : List PaVaOp)
    (hok : Run.Along (next d) (fun m op => (m.apply d op).isSome) {} ops) :
    Run.Along (next d) (fun m op => Bidirectional (m.next d op)) {} ops ↔
      Run.Along (next d) Fresh {} ops := by
  refine Run.along_iff_of_allowed (next d) _ _ Fresh Inverse ?_ ?_ {} ops hok inverse_empty
  · intro m op hop h
    rw [bidirectional_iff]
    exact h.next_iff m d op hop
  · intro m op hop hfresh h
    exact (h.next_iff m d op hop).mpr hfresh

/-- Two buffers at one virtual address, of which the older one is removed. -/
def remapped : List PaVaOp :=
  [.insert ⟨0x1000,0x7000,0x1000⟩,.insert ⟨0x2000,0x7000,0x1000⟩,.remove 0x1000]

theorem bidirectional_along_iff_remapped :
    ¬Run.Along (next true) (fun m op => Bidirectional (m.next true op)) {} remapped := by
  rw [bidirectional_along_iff true remapped (by decide +kernel)]
  intro h
  have hfresh := h.2.1 0x1000 ⟨0x1000,0x2000,0x7000⟩ (by decide +kernel)
  exact absurd (hfresh.mp rfl) (by decide)

/-- The live range is not found by its virtual address: the removal of the other one took the
entry of the index away. -/
theorem remapped_lost :
    let m := Run.run (next true) {} remapped
    Run.Along (next true) (fun m op => (m.apply true op).isSome) {} remapped ∧
      m.ranges.get? 0x2000=some ⟨0x2000,0x3000,0x7000⟩ ∧ m.lookupByVa 0x7000=none ∧
      (m.removeByVa 0x7000).isNone := by
  decide +kernel

end PaVaMap
end BlueRdma
