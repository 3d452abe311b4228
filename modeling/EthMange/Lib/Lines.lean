import Mathlib.Tactic

/-!
# Lines of a stream that arrives in segments

A stream is cut into segments and read by a reader that looks in every segment for
the first item that ends a line: the line is complete with it, and what follows in
that segment is dropped. `lines` are the lines when nothing is dropped. Where only
the first `k` items of a line matter, `lines_eq_iff_settled` says which streams are
read alike however they are cut.
-/

namespace EthMange.Lines

variable {α : Type*} (isEnd : α → Prop) [DecidablePred isEnd]

/-- The unfinished line after a segment, and the line that it completes. -/
def readSegment (line seg : List α) : List α × List (List α) :=
  if ∃ a ∈ seg, isEnd a then ([], [line ++ seg.takeWhile fun a => ¬ isEnd a])
  else (line ++ seg, [])

/-- The lines that are completed by the segments of a stream. -/
def readSegments : List α → List (List α) → List (List α)
  | _, [] => []
  | line, seg :: segs =>
    let r := readSegment isEnd line seg
    r.2 ++ readSegments r.1 segs

/-- The unfinished line after the segments of a stream. -/
def afterSegments (line : List α) (segs : List (List α)) : List α :=
  segs.foldl (fun l seg => (readSegment isEnd l seg).1) line

/-- The lines of a stream, of which every item is read. -/
def lines : List α → List α → List (List α)
  | _, [] => []
  | line, a :: s => if isEnd a then line :: lines [] s else lines (line ++ [a]) s

/-- The unfinished line after a stream, of which every item is read. -/
def unfinished (line s : List α) : List α :=
  s.foldl (fun l a => if isEnd a then [] else l ++ [a]) line

/-- After the end of a line comes no other end, or `m` copies of one item come first. -/
def Settled (m : ℕ) (s : List α) : Prop :=
  ∀ u t v, s = u ++ t :: v → isEnd t →
    (∀ a ∈ v, ¬ isEnd a) ∨ ∃ c, ¬ isEnd c ∧ List.replicate m c <+: v

variable {isEnd}

section Reader

variable {t : α} {line s u v rest : List α} {segs : List (List α)}

theorem exists_end_split (h : ∃ a ∈ s, isEnd a) :
    ∃ v t rest, s = v ++ t :: rest ∧ (∀ a ∈ v, ¬ isEnd a) ∧ isEnd t := by
  induction s with
  | nil => simp at h
  | cons a s ih =>
    by_cases ha : isEnd a
    · exact ⟨[], a, s, rfl, by simp, ha⟩
    · obtain ⟨b, hb, hend⟩ := h
      obtain rfl | hmem := List.mem_cons.mp hb
      · exact absurd hend ha
      · obtain ⟨v, t, rest, rfl, hv, ht⟩ := ih ⟨b, hmem, hend⟩
        exact ⟨a :: v, t, rest, rfl, List.forall_mem_cons.mpr ⟨ha, hv⟩, ht⟩

theorem readSegment_open (hs : ∀ a ∈ s, ¬ isEnd a) :
    readSegment isEnd line s = (line ++ s, []) := by
  rw [readSegment, if_neg]
  rintro ⟨a, ha, hend⟩
  exact hs a ha hend

theorem takeWhile_end (hv : ∀ a ∈ v, ¬ isEnd a) (ht : isEnd t) :
    ((v ++ t :: rest).takeWhile fun a => ¬ isEnd a) = v := by
  rw [List.takeWhile_append_of_pos fun a ha => decide_eq_true (hv a ha)]
  simp [ht]

theorem readSegment_end (hv : ∀ a ∈ v, ¬ isEnd a) (ht : isEnd t) :
    readSegment isEnd line (v ++ t :: rest) = ([], [line ++ v]) := by
  have hmem : ∃ a ∈ v ++ t :: rest, isEnd a := ⟨t, by simp, ht⟩
  rw [readSegment, if_pos hmem, takeWhile_end hv ht]

theorem readSegments_open (line : List α) (hs : ∀ a ∈ segs.flatten, ¬ isEnd a) :
    readSegments isEnd line segs = [] ∧ afterSegments isEnd line segs = line ++ segs.flatten := by
  induction segs generalizing line with
  | nil => exact ⟨rfl, (List.append_nil line).symm⟩
  | cons seg segs ih =>
    rw [List.flatten_cons, List.forall_mem_append] at hs
    obtain ⟨hnone, hafter⟩ := ih (line ++ seg) hs.2
    rw [readSegments, afterSegments, List.foldl_cons, ← afterSegments, readSegment_open hs.1]
    exact ⟨hnone, by rw [hafter, List.flatten_cons, List.append_assoc]⟩

theorem lines_open (hs : ∀ a ∈ s, ¬ isEnd a) : lines isEnd line s = [] := by
  induction s generalizing line with
  | nil => rfl
  | cons a s ih =>
    obtain ⟨ha, hs⟩ := List.forall_mem_cons.mp hs
    rw [lines, if_neg ha]
    exact ih hs

theorem lines_open_append (hv : ∀ a ∈ v, ¬ isEnd a) :
    lines isEnd line (v ++ s) = lines isEnd (line ++ v) s := by
  induction v generalizing line with
  | nil => simp
  | cons a v ih =>
    obtain ⟨ha, hv⟩ := List.forall_mem_cons.mp hv
    rw [List.cons_append, lines, if_neg ha, ih hv, List.append_assoc, List.singleton_append]

theorem lines_end (hv : ∀ a ∈ v, ¬ isEnd a) (ht : isEnd t) :
    lines isEnd line (v ++ t :: s) = (line ++ v) :: lines isEnd [] s := by
  rw [lines_open_append hv, lines, if_pos ht]

theorem lines_append : lines isEnd line (u ++ v) =
    lines isEnd line u ++ lines isEnd (unfinished isEnd line u) v := by
  induction u generalizing line with
  | nil => rfl
  | cons a u ih =>
    rw [List.cons_append, lines, lines, unfinished, List.foldl_cons, ← unfinished]
    split_ifs
    · rw [ih, List.cons_append]
    · exact ih

/-- Every end completes one line. -/
theorem length_lines : (lines isEnd line s).length = s.countP isEnd := by
  induction s generalizing line with
  | nil => rfl
  | cons a s ih =>
    by_cases ha : isEnd a
    · rw [lines, if_pos ha, List.countP_cons_of_pos (by simpa using ha), List.length_cons, ih]
    · rw [lines, if_neg ha, List.countP_cons_of_neg (by simpa using ha), ih]

/-- Item by item nothing is dropped. -/
theorem readSegments_singles_append :
    readSegments isEnd line (s.map (fun a => [a]) ++ segs) =
      lines isEnd line s ++ readSegments isEnd (unfinished isEnd line s) segs := by
  induction s generalizing line with
  | nil => rfl
  | cons a s ih =>
    rw [List.map_cons, List.cons_append, readSegments, lines, unfinished, List.foldl_cons,
      ← unfinished]
    by_cases ha : isEnd a
    · have hseg : readSegment isEnd line [a] = ([], [line]) := by
        have hend : readSegment isEnd line ([] ++ a :: []) = ([], [line ++ []]) :=
          readSegment_end (by simp) ha
        simpa using hend
      rw [hseg, if_pos ha, if_pos ha, ih]
      rfl
    · rw [readSegment_open (by simpa using ha), if_neg ha, if_neg ha, ih]
      rfl

theorem readSegments_singles :
    readSegments isEnd line (s.map fun a => [a]) = lines isEnd line s := by
  have happend : readSegments isEnd line (s.map (fun a => [a]) ++ []) =
      lines isEnd line s ++ readSegments isEnd (unfinished isEnd line s) [] :=
    readSegments_singles_append
  simpa [readSegments] using happend

end Reader

/-! ### Streams that are read alike -/

section Settled

variable {k m : ℕ} {c t : α} {line s u v rest : List α} {segs : List (List α)}

omit [DecidablePred isEnd] in
theorem Settled.suffix (h : Settled isEnd m s) (hs : s = u ++ v) : Settled isEnd m v :=
  fun x t y hv => h (u ++ x) t y (by rw [hs, hv, List.append_assoc])

/-- Two unfinished lines that cannot be told apart any more complete to lines that
cannot be told apart. -/
theorem lines_congr {l l' : List α} (h : ∀ x, (l ++ x).take k = (l' ++ x).take k) :
    (lines isEnd l s).map (List.take k) = (lines isEnd l' s).map (List.take k) := by
  induction s generalizing l l' with
  | nil => rfl
  | cons a s ih =>
    rw [lines, lines]
    split_ifs
    · have hl := h []
      rw [List.append_nil, List.append_nil] at hl
      rw [List.map_cons, List.map_cons, hl]
    · apply ih
      intro x
      rw [List.append_assoc, List.append_assoc]
      exact h (a :: x)

/-- What a segment drops after an end makes no difference. -/
theorem lines_dropped (hrest : rest.length + k ≤ m)
    (h : (∀ a ∈ rest ++ s, ¬ isEnd a) ∨
      ∃ c, ¬ isEnd c ∧ List.replicate m c <+: rest ++ s) :
    (lines isEnd [] (rest ++ s)).map (List.take k) = (lines isEnd [] s).map (List.take k) := by
  obtain hopen | ⟨c, hc, hcopies⟩ := h
  · rw [lines_open hopen, lines_open fun a ha => hopen a (List.mem_append_right rest ha)]
  · obtain ⟨y, hy⟩ := hcopies
    -- the copies reach behind what is dropped
    have hsplit : List.replicate m c =
        List.replicate rest.length c ++ (List.replicate k c ++
          List.replicate (m - rest.length - k) c) := by
      rw [← List.replicate_add, ← List.replicate_add]
      congr 1
      omega
    rw [hsplit, List.append_assoc, List.append_assoc] at hy
    obtain ⟨hdropped, hs⟩ := List.append_inj hy List.length_replicate
    have hcopy (n : ℕ) : ∀ a ∈ List.replicate n c, ¬ isEnd a := by
      intro a ha
      rw [List.eq_of_mem_replicate ha]
      exact hc
    rw [← hdropped, ← hs, lines_open_append (hcopy _), lines_open_append (hcopy _),
      lines_open_append (hcopy k), List.nil_append]
    apply lines_congr
    intro x
    rw [List.nil_append]
    rw [← List.replicate_add, Nat.add_comm, List.replicate_add, List.append_assoc,
      List.take_append_of_le_length (by simp), List.take_append_of_le_length (by simp)]

/-- However a settled stream is cut, its lines are read. -/
theorem readSegments_of_settled {L : ℕ} (hsegs : ∀ seg ∈ segs, seg.length ≤ L)
    (hm : L - 1 + k ≤ m) (h : Settled isEnd m segs.flatten) :
    (readSegments isEnd line segs).map (List.take k) =
      (lines isEnd line segs.flatten).map (List.take k) := by
  induction segs generalizing line with
  | nil => rfl
  | cons seg segs ih =>
    obtain ⟨hseg, hshorter⟩ := List.forall_mem_cons.mp hsegs
    have hsettled : Settled isEnd m segs.flatten := h.suffix List.flatten_cons
    rw [readSegments, List.flatten_cons]
    by_cases hend : ∃ a ∈ seg, isEnd a
    · obtain ⟨v, t, rest, rfl, hv, ht⟩ := exists_end_split hend
      have hshort : rest.length + k ≤ m := by
        rw [List.length_append, List.length_cons] at hseg
        omega
      have hafter := h v t (rest ++ segs.flatten) (by simp) ht
      rw [readSegment_end hv ht, List.singleton_append, List.append_assoc v, List.cons_append,
        lines_end hv ht, List.map_cons, List.map_cons, ih hshorter hsettled,
        lines_dropped hshort hafter]
    · have hopen : ∀ a ∈ seg, ¬ isEnd a := fun a ha hc => hend ⟨a, ha, hc⟩
      rw [readSegment_open hopen, lines_open_append hopen, List.nil_append, ih hshorter hsettled]

/-- A list that looks the same from each of its first places on begins with copies of
its first item. -/
theorem take_eq_replicate {x : List α} {n : ℕ} (hn : 0 < n) (hk : 0 < k)
    (hreach : n + k ≤ x.length) (hpos : 0 < x.length)
    (hfirst : ∀ r ≤ n, (x.drop r).take k = x.take k) :
    x.take (n + k) = List.replicate (n + k) x[0] := by
  -- item `r + i` is item `i`
  have hshift : ∀ r ≤ n, ∀ i < k, x[r + i]? = x[i]? := by
    intro r hr i hi
    have hget := congrArg (·[i]?) (hfirst r hr)
    simpa [List.getElem?_take, hi, List.getElem?_drop] using hget
  have hcopy : ∀ j < n + k, x[j]? = x[0]? := by
    intro j
    induction j using Nat.strong_induction_on with
    | _ j ih =>
      intro hj
      obtain hnear | hfar := Nat.lt_or_ge n j
      · have hsub := hshift n le_rfl (j - n) (by omega)
        rw [Nat.add_sub_cancel' hnear.le] at hsub
        rw [hsub, ih (j - n) (by omega) (by omega)]
      · exact hshift j hfar 0 hk
  apply List.ext_getElem (by simp [hreach])
  intro j hj hj'
  rw [List.length_replicate] at hj'
  have hjx : j < x.length := by omega
  have hget := hcopy j hj'
  rw [List.getElem?_eq_getElem hjx, List.getElem?_eq_getElem hpos, Option.some.injEq] at hget
  rw [List.getElem_replicate, List.getElem_take, hget]

/-- A stream that can be cut off after an end, up to `n` items, is made of copies
there. -/
theorem copies_of_dropped {n : ℕ} (hn : 0 < n) (hk : 0 < k) (hv : ∃ a ∈ v, isEnd a)
    (h : ∀ r ≤ n, r ≤ v.length →
      (lines isEnd [] (v.drop r)).map (List.take k) = (lines isEnd [] v).map (List.take k)) :
    ∃ c, ¬ isEnd c ∧ List.replicate (n + k) c <+: v := by
  obtain ⟨x, t, y, rfl, hx, ht⟩ := exists_end_split hv
  -- the end is out of reach
  have hlong : n ≤ x.length := by
    by_contra hshort
    have hdrop := h (x.length + 1) (by omega) (by simp)
    have hy : (x ++ t :: y).drop (x.length + 1) = y := by simp
    rw [hy, lines_end hx ht] at hdrop
    have hcount := congrArg List.length hdrop
    rw [List.length_map, List.length_map, List.length_cons] at hcount
    omega
  have hfirst : ∀ r ≤ n, (x.drop r).take k = x.take k := by
    intro r hr
    have hdrop := h r hr (by rw [List.length_append]; omega)
    have hopen : ∀ a ∈ x.drop r, ¬ isEnd a := fun a ha => hx a (List.mem_of_mem_drop ha)
    rw [List.drop_append_of_le_length (by omega), lines_end hopen ht, lines_end hx ht,
      List.map_cons, List.map_cons] at hdrop
    exact (List.cons.inj hdrop).1
  have hreach : n + k ≤ x.length := by
    have hlen := congrArg List.length (hfirst n le_rfl)
    rw [List.length_take, List.length_take, List.length_drop] at hlen
    omega
  have hpos : 0 < x.length := by omega
  refine ⟨x[0], hx _ (List.getElem_mem hpos), ?_⟩
  rw [← take_eq_replicate hn hk hreach hpos hfirst]
  exact (List.take_prefix _ _).trans (List.prefix_append _ _)

/-- The first `k` items of the lines are the same for every cut into segments of at
most `L` items if and only if the stream is settled. -/
theorem lines_eq_iff_settled {L : ℕ} (hL : 2 ≤ L) (hk : 0 < k) :
    (∀ segs : List (List α), (∀ seg ∈ segs, 0 < seg.length ∧ seg.length ≤ L) → segs.flatten = s →
      (readSegments isEnd [] segs).map (List.take k) = (lines isEnd [] s).map (List.take k)) ↔
    Settled isEnd (L - 1 + k) s := by
  constructor
  · intro h u t v hs ht
    by_cases hv : ∃ a ∈ v, isEnd a
    · refine .inr (copies_of_dropped (by omega) hk hv fun r hr hrv => ?_)
      -- an end and the `r` items after it in one segment, everything else on its own
      have hcut := h (u.map (fun a => [a]) ++ (t :: v.take r) :: (v.drop r).map fun a => [a])
        ?_ ?_
      · have hseg : readSegment isEnd (unfinished isEnd [] u) (t :: v.take r) =
            ([], [unfinished isEnd [] u]) := by
          have hend : readSegment isEnd (unfinished isEnd [] u) ([] ++ t :: v.take r) =
              ([], [unfinished isEnd [] u ++ []]) := readSegment_end (by simp) ht
          simpa using hend
        rw [readSegments_singles_append, readSegments, hseg, readSegments_singles, hs, lines_append,
          lines, if_pos ht] at hcut
        simp only [List.map_append, List.map_cons, List.singleton_append] at hcut
        exact (List.cons.inj (List.append_cancel_left hcut)).2
      · have hone : ∀ a : α, 0 < [a].length ∧ [a].length ≤ L :=
          fun a => ⟨one_pos, le_trans one_le_two hL⟩
        simp only [List.forall_mem_append, List.forall_mem_cons, List.forall_mem_map,
          List.length_cons, List.length_take]
        exact ⟨fun a _ => hone a, by omega, fun a _ => hone a⟩
      · have hsingles (l : List α) : (l.map fun a => [a]).flatten = l := List.flatMap_singleton' l
        rw [hs, List.flatten_append, List.flatten_cons, hsingles, hsingles, List.cons_append,
          List.take_append_drop]
    · exact .inl fun a ha hend => hv ⟨a, ha, hend⟩
  · rintro h segs hsegs rfl
    exact readSegments_of_settled (fun seg hseg => (hsegs seg hseg).2) le_rfl h

end Settled

end EthMange.Lines
