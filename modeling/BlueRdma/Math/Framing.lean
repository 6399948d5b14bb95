import Mathlib.Tactic

namespace BlueRdma.Framing
variable {α β : Type} (complete : List β → Bool)

/-- The frames a reader with the given buffer completes, and the buffer it is left with. -/
def feed : List β → List β → List (List β) × List β
  | buf,[] => ([],buf)
  | buf,b::bs =>
    if complete (buf++[b]) then
      let r := feed [] bs
      ((buf++[b])::r.1,r.2)
    else feed (buf++[b]) bs

/-- A frame is complete with its last symbol and not before. -/
structure Frame (f : List β) : Prop where
  nonempty : f≠[]
  closed : complete f=true
  unfinished : ∀ p,p<+:f → p≠[] → p≠f → complete p=false

@[simp] theorem feed_nil (buf : List β) : feed complete buf []=([],buf) := rfl

theorem feed_append (buf xs ys : List β) :
    feed complete buf (xs++ys)=
      ((feed complete buf xs).1++(feed complete (feed complete buf xs).2 ys).1,
        (feed complete (feed complete buf xs).2 ys).2) := by
  induction xs generalizing buf with
  | nil => rfl
  | cons x xs ih =>
      rw [List.cons_append,feed,feed]
      split_ifs with hc
      · simp only [ih [],List.cons_append]
      · exact ih (buf++[x])

/-- Symbols that complete nothing stay in the buffer. -/
theorem feed_open (buf xs : List β)
    (h : ∀ p,p<+:xs → p≠[] → complete (buf++p)=false) : feed complete buf xs=([],buf++xs) := by
  induction xs generalizing buf with
  | nil => rw [feed_nil,List.append_nil]
  | cons x xs ih =>
      have hx := h [x] ⟨xs,rfl⟩ (List.cons_ne_nil x [])
      rw [feed,hx,if_neg Bool.false_ne_true,ih,List.append_assoc,List.singleton_append]
      intro p hp _
      rw [List.append_assoc,List.singleton_append]
      exact h (x::p) (List.cons_prefix_cons.mpr ⟨rfl,hp⟩) (List.cons_ne_nil x p)

/-- The rest of a frame completes it. -/
theorem feed_frame (buf xs : List β) (hxs : xs≠[]) (h : Frame complete (buf++xs)) :
    feed complete buf xs=([buf++xs],[]) := by
  obtain ⟨ys,y,rfl⟩ := List.eq_nil_or_concat xs |>.resolve_left hxs
  rw [List.concat_eq_append] at h ⊢
  rw [feed_append,feed_open complete buf ys]
  · rw [← List.append_assoc] at h ⊢
    rw [feed,h.closed,if_pos rfl,feed_nil]
    rfl
  · intro p hp hne
    obtain ⟨q,rfl⟩ := hp
    apply h.unfinished (buf++p)
    · exact ⟨q++[y],by simp⟩
    · simp [hne]
    · simp

/-- Whole frames come out as they went in, whatever follows. -/
theorem feed_flatMap (encode : α → List β) (as : List α) (rest : List β)
    (h : ∀ a∈as,Frame complete (encode a)) :
    feed complete [] (as.flatMap encode++rest)=
      (as.map encode++(feed complete [] rest).1,(feed complete [] rest).2) := by
  induction as with
  | nil => rfl
  | cons a as ih =>
      have ha := h a List.mem_cons_self
      rw [List.flatMap_cons,List.append_assoc,feed_append,feed_frame complete [] _ ha.nonempty ha,
        List.nil_append,ih (fun b hb => h b (List.mem_cons_of_mem a hb))]
      rfl

/-- A line ends with the delimiter, which nothing before it in the line is. -/
def endsWith [DecidableEq β] (delimiter : β) (buf : List β) : Bool := buf.getLast?=some delimiter

theorem endsWith_of_notMem [DecidableEq β] (delimiter : β) (buf : List β) (h : delimiter∉buf) :
    endsWith delimiter buf=false := by
  have hlast : buf.getLast?≠some delimiter := by
    intro heq
    exact h (List.mem_of_getLast? heq)
  simp [endsWith,hlast]

theorem frame_line [DecidableEq β] (delimiter : β) (body : List β) (h : delimiter∉body) :
    Frame (endsWith delimiter) (body++[delimiter]) := by
  refine ⟨by simp,by simp [endsWith],?_⟩
  intro p hp hne hlt
  have hbody : p<+:body := by
    rcases List.prefix_concat_iff.mp hp with heq|hbody
    · exact absurd heq hlt
    · exact hbody
  apply endsWith_of_notMem
  intro hmem
  exact h (hbody.subset hmem)

/-- What has been read without the delimiter is the beginning of the first line. -/
theorem split_line (delimiter : β) (line bytes body rest : List β)
    (h : line++bytes=body++delimiter::rest) (hline : delimiter∉line) :
    ∃ more,body=line++more ∧ bytes=more++delimiter::rest := by
  rcases List.append_eq_append_iff.mp h with ⟨more,hbody,hbytes⟩|⟨more,hcut,hbytes⟩
  · exact ⟨more,hbody,hbytes⟩
  · cases more with
    | nil => exact ⟨[],by simpa using hcut.symm,by simpa using hbytes.symm⟩
    | cons b more =>
        obtain rfl := (List.cons.inj hbytes).1
        exact absurd (hcut ▸ List.mem_append_right body List.mem_cons_self) hline

/-- Lines end at the first delimiter. -/
theorem line_eq (delimiter : β) (line bytes body rest : List β)
    (h : line++delimiter::bytes=body++delimiter::rest) (hline : delimiter∉line)
    (hbody : delimiter∉body) : line=body ∧ bytes=rest := by
  obtain ⟨more,rfl,hbytes⟩ := split_line delimiter line _ body rest h hline
  cases more with
  | nil => exact ⟨(List.append_nil line).symm,(List.cons.inj hbytes).2⟩
  | cons b more =>
      obtain rfl := (List.cons.inj hbytes).1
      exact absurd (List.mem_append_right line List.mem_cons_self) hbody

end BlueRdma.Framing
