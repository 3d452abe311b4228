import EthMange.Telnet.Reply

/-!
# Telnet replies and segmentation

A line that is answered takes the rest of its segment with it, and an LF that comes
in the segment after its CR is a line of its own. What is sent back therefore
depends on how the stream was cut, unless nothing follows the end of a line that a
segment could take.
-/

namespace EthMange.Telnet

open Lines

/-- The connection that `telnetAccept` leaves when there is memory for the block. -/
def acceptedConn : TelnetConn := (telnetAccept true ⟨false, false, false, ⟨0, fun _ => 0⟩, []⟩).2

/-- Every greeting is followed by the body of the reply. -/
def bodies : List Bytes → List Bytes
  | _ :: body :: ws => body :: bodies ws
  | _ => []

/-- The bodies written for a stream that arrives in these segments, when `tcp_write`
accepts everything. -/
def replies (app : TelnetApp) (segs : List Pbuf) : List Bytes :=
  bodies (writes (recvAll app acceptedConn (segs.map fun p => ⟨p, .ok, ⟨.ok, .ok, .ok⟩⟩)).log)

/-- The segments, none of them empty, carry the stream. -/
structure CutOf (stream : Bytes) (segs : List Pbuf) : Prop where
  data : ∀ p ∈ segs, 0 < p.totLen
  bytes : segs.flatMap Pbuf.bytes = stream

/-- The lines of a stream, with CR, LF or CRLF at their end. -/
def lineCount (afterCr : Bool) : Bytes → ℕ
  | [] => 0
  | c :: bs =>
    (if c = 0x0D ∨ c = 0x0A ∧ afterCr = false then 1 else 0) + lineCount (c = 0x0D) bs

/-- Every cut gives the same replies, one for each line. -/
def SegmentationFree (app : TelnetApp) (stream : Bytes) : Prop :=
  ∀ A B, CutOf stream A → CutOf stream B →
    replies app A = replies app B ∧ (replies app A).length = lineCount false stream

/-- The longest segment that a pbuf chain can carry. -/
def maxSegment : ℕ := 2 ^ 16 - 1

theorem replies_eq (app : TelnetApp) (segs : List Pbuf) :
    replies app segs = (readSegments IsEol [] (segs.map Pbuf.bytes)).map replyBody := by
  have hstart : Reads acceptedConn [] [] := ⟨rfl, holds_nil.mpr rfl, rfl, by simp⟩
  have hread := hstart.recvAll app (segs.map fun p => ⟨p, .ok, ⟨.ok, .ok, .ok⟩⟩)
  have hbodies (ls : List Bytes) : bodies (ls.flatMap (reply app)) = ls.map replyBody := by
    induction ls with
    | nil => rfl
    | cons l ls ih => rw [List.flatMap_cons, List.map_cons, ← ih]; rfl
  rw [replies, hread.written, List.nil_append, List.map_map, hbodies]
  rfl

/-- Two lines are answered alike if they have the same first 30 bytes. -/
theorem map_replyBody_inj {ls ls' : List Bytes} :
    ls.map replyBody = ls'.map replyBody ↔ ls.map (List.take 30) = ls'.map (List.take 30) := by
  have hmap (ls : List Bytes) :
      ls.map replyBody = (ls.map (List.take 30)).map (· ++ [0x0D, 0x0A]) := by
    rw [List.map_map]
    rfl
  rw [hmap, hmap]
  exact (List.map_injective_iff.mpr (List.append_left_injective _)).eq_iff

/-- Every list of segments that are short enough can arrive. -/
theorem exists_cut {segs : List Bytes}
    (h : ∀ seg ∈ segs, 0 < seg.length ∧ seg.length ≤ maxSegment) :
    ∃ A : List Pbuf, CutOf segs.flatten A ∧ A.map Pbuf.bytes = segs := by
  induction segs with
  | nil => exact ⟨[], ⟨by simp, rfl⟩, rfl⟩
  | cons seg segs ih =>
    obtain ⟨⟨hpos, hle⟩, hsegs⟩ := List.forall_mem_cons.mp h
    obtain ⟨A, hA, hbytes⟩ := ih hsegs
    have hlt : seg.length < 2 ^ 16 := by
      rw [maxSegment] at hle
      omega
    have hseg : (Pbuf.single seg hlt).bytes = seg := by
      simp [Pbuf.bytes, Pbuf.chain, Pbuf.single, PbufSeg.bytes]
    refine ⟨.single seg hlt :: A, ⟨List.forall_mem_cons.mpr ⟨?_, hA.data⟩, ?_⟩, ?_⟩
    · rw [← Pbuf.bytes_length, hseg]
      exact hpos
    · rw [List.flatMap_cons, hseg, hA.bytes, List.flatten_cons]
    · rw [List.map_cons, hseg, hbytes]

/-- Without CRLF every CR and every LF ends a line. -/
theorem lineCount_eq {s : Bytes} (h : ∀ u v, s ≠ u ++ 0x0D :: 0x0A :: v) (afterCr : Bool)
    (hfirst : afterCr = true → s.head? ≠ some 0x0A) : lineCount afterCr s = s.countP IsEol := by
  induction s generalizing afterCr with
  | nil => rfl
  | cons c s ih =>
    have hrest : ∀ u v, s ≠ u ++ 0x0D :: 0x0A :: v := fun u v hs => h (c :: u) v (by rw [hs]; rfl)
    have hnext : decide (c = 0x0D) = true → s.head? ≠ some 0x0A := by
      intro hc hs
      obtain ⟨v, rfl⟩ := List.head?_eq_some_iff.mp hs
      exact h [] v (by rw [of_decide_eq_true hc]; rfl)
    have hafter : c = 0x0A → afterCr = false := by
      intro hc
      rw [← Bool.not_eq_true]
      exact fun hcr => hfirst hcr (by rw [hc]; rfl)
    have hend : (c = 0x0D ∨ c = 0x0A ∧ afterCr = false) ↔ IsEol c :=
      or_congr_right (and_iff_left_of_imp hafter)
    rw [lineCount, ih hrest _ hnext, if_congr hend rfl rfl, List.countP_cons, Nat.add_comm]
    simp only [decide_eq_true_eq]

theorem settled_noCrLf {m : ℕ} {s : Bytes} (hm : 0 < m) (h : Settled IsEol m s) (u v : Bytes) :
    s ≠ u ++ 0x0D :: 0x0A :: v := by
  intro hs
  obtain hopen | ⟨c, hc, hcopies⟩ := h u 0x0D (0x0A :: v) hs (.inl rfl)
  · exact hopen 0x0A List.mem_cons_self (.inr rfl)
  · obtain ⟨k, rfl⟩ := Nat.exists_eq_succ_of_ne_zero hm.ne'
    rw [List.replicate_succ, List.cons_prefix_cons] at hcopies
    exact hc (.inr hcopies.1)

/-- The replies do not depend on the segmentation if and only if no CR or LF is
followed by another, or by so many copies of one byte in between that no segment can
take what the reply shows. -/
theorem segmentation_free_iff (app : TelnetApp) (stream : Bytes) :
    SegmentationFree app stream ↔ Settled IsEol (maxSegment - 1 + 30) stream := by
  rw [← lines_eq_iff_settled (by decide) (by decide)]
  constructor
  · intro h segs hsegs hstream
    obtain ⟨A, hA, hbytes⟩ := exists_cut hsegs
    have hone : ∀ seg ∈ stream.map fun b => [b], 0 < seg.length ∧ seg.length ≤ maxSegment := by
      simp [maxSegment]
    obtain ⟨B, hB, hsingles⟩ := exists_cut hone
    have hflat : (stream.map fun b => [b]).flatten = stream := List.flatMap_singleton' stream
    have heq := (h A B (hstream ▸ hA) (hflat ▸ hB)).1
    rw [replies_eq, replies_eq, hbytes, hsingles, readSegments_singles] at heq
    exact map_replyBody_inj.mp heq
  · intro h A B hA hB
    have hread {segs : List Pbuf} (hsegs : CutOf stream segs) :
        replies app segs = (lines IsEol [] stream).map replyBody := by
      have hlen : ∀ seg ∈ segs.map Pbuf.bytes, 0 < seg.length ∧ seg.length ≤ maxSegment := by
        refine List.forall_mem_map.mpr fun p hp => ?_
        have hlt := p.tot_lt
        rw [Pbuf.bytes_length, maxSegment]
        exact ⟨hsegs.data p hp, Nat.le_sub_one_of_lt hlt⟩
      rw [replies_eq]
      exact map_replyBody_inj.mpr (h _ hlen hsegs.bytes)
    have hsettled := (lines_eq_iff_settled (by decide) (by decide)).mp h
    have hcount := lineCount_eq (settled_noCrLf (by decide) hsettled) false nofun
    rw [hread hA, hread hB, List.length_map, length_lines, hcount]
    exact ⟨rfl, rfl⟩

/-- CR and LF in two segments are answered twice, in one segment once. -/
theorem not_segmentation_free : ¬ SegmentationFree .helloWorld [97, 13, 10] := by
  intro h
  have hone : CutOf [97, 13, 10] [.single [97, 13, 10] (by decide)] :=
    ⟨by decide, by decide⟩
  have htwo : CutOf [97, 13, 10] [.single [97, 13] (by decide), .single [10] (by decide)] :=
    ⟨by decide, by decide⟩
  exact absurd (h _ _ hone htwo).1 (by decide +kernel)

end EthMange.Telnet
