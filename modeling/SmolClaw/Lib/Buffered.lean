/-
  Looking for a pattern through a buffer: a text is read piece by piece, and each piece is searched on
  its own, up to a stop element.

  1. **Pieces** — a piece ends behind the next break, or where the buffer of `n` elements is full.

  2. **Offset** — `offset` follows a text from the start and says how far into its piece the next element
     stands.  It is back at 0 behind every piece that is followed by another (`offset_piece`).

  3. **Visible** — an occurrence is seen when no piece ends inside it and no stop stands before it in its
     piece.  `visible_iff` peels off the first piece; a reading loop follows by induction.
-/
import Mathlib.Data.List.Infix
import Mathlib.Data.List.TakeWhile

namespace Lib.Buffered

variable {α : Type*} [DecidableEq α] (brk stop : α) (n : Nat)

/-- The first piece of a text. -/
def piece (text : List α) : List α :=
  let line := text.takeWhile (· != brk)
  (text.take (line.length + 1)).take n

/-- How far into its piece the element behind `text` stands. -/
def offset (text : List α) : Nat := text.foldl (fun k c => if c = brk then 0 else (k + 1) % n) 0

/-- Some occurrence of the pattern lies in one piece, in front of the first stop there. -/
def Visible (pattern text : List α) : Prop :=
  ∃ before after, text = before ++ pattern ++ after ∧ brk ∉ pattern.dropLast ∧
    offset brk n before + pattern.length ≤ n ∧ stop ∉ before.drop (before.length - offset brk n before)

variable {brk stop n}

/-! ## Pieces -/

theorem not_mem_takeWhile (c : α) (text : List α) : c ∉ text.takeWhile (· != c) := by
  intro h
  have hpass := List.mem_takeWhile_imp h
  simp at hpass

omit [DecidableEq α] in
theorem append_dropLast_prefix (before pattern after : List α) :
    before ++ pattern.dropLast <+: before ++ pattern ++ after :=
  ((List.prefix_append_right_inj before).mpr (List.dropLast_prefix pattern)).trans (List.prefix_append _ _)

/-- **The first piece**: a line with its break, or a part of a line that ends with the text or where the
    buffer is full. -/
theorem piece_cases (brk : α) (hn : 0 < n) {text : List α} (hne : text ≠ []) :
    ∃ line rest, brk ∉ line ∧
      ((piece brk n text = line ++ [brk] ∧ text = line ++ brk :: rest ∧ line.length < n) ∨
        (piece brk n text = line ∧ text = line ++ rest ∧ line ≠ [] ∧ line.length ≤ n ∧
          (rest = [] ∨ line.length = n))) := by
  have hsplit := List.takeWhile_append_dropWhile (p := (· != brk)) (l := text)
  have hline := not_mem_takeWhile brk text
  rw [piece]
  generalize text.takeWhile (· != brk) = line at hsplit hline
  cases hrest : text.dropWhile (· != brk) with
  | nil =>
    rw [hrest, List.append_nil] at hsplit
    subst hsplit
    have hlen : 0 < line.length := List.length_pos_of_ne_nil hne
    refine ⟨line.take n, line.drop n, fun h => hline (List.mem_of_mem_take h), Or.inr ⟨?_, ?_, ?_, ?_, ?_⟩⟩
    · rw [List.take_of_length_le (Nat.le_succ _)]
    · rw [List.take_append_drop]
    · intro hnil
      have hlength := congrArg List.length hnil
      rw [List.length_take, List.length_nil] at hlength
      omega
    · exact List.length_take_le n line
    · rw [List.drop_eq_nil_iff, List.length_take]
      omega
  | cons c rest =>
    have hc : c = brk := by
      have hnot := List.head?_dropWhile_not (· != brk) text
      rw [hrest] at hnot
      simpa using hnot
    subst hc
    rw [hrest] at hsplit
    subst hsplit
    have htake : (line ++ c :: rest).take (line.length + 1) = line ++ [c] := by
      rw [List.take_length_add_append]
      rfl
    rw [htake]
    rcases Nat.lt_or_ge line.length n with hlt | hge
    · refine ⟨line, rest, hline, Or.inl ⟨List.take_of_length_le ?_, rfl, hlt⟩⟩
      rw [List.length_append, List.length_singleton]
      exact hlt
    · have hfull : (line.take n).length = n := by rw [List.length_take]; omega
      refine ⟨line.take n, line.drop n ++ c :: rest, fun h => hline (List.mem_of_mem_take h),
        Or.inr ⟨List.take_append_of_le_length hge, ?_, ?_, Nat.le_of_eq hfull, Or.inr hfull⟩⟩
      · rw [← List.append_assoc, List.take_append_drop]
      · intro hnil
        rw [hnil, List.length_nil] at hfull
        omega

theorem piece_ne_nil (hn : 0 < n) {text : List α} (hne : text ≠ []) : piece brk n text ≠ [] := by
  obtain ⟨line, rest, -, ⟨hpiece, -, -⟩ | ⟨hpiece, -, hline, -⟩⟩ := piece_cases brk hn hne
  · rw [hpiece]
    exact List.concat_ne_nil brk line
  · rw [hpiece]
    exact hline

/-! ## Offsets -/

theorem offset_append (a b : List α) :
    offset brk n (a ++ b) = b.foldl (fun k c => if c = brk then 0 else (k + 1) % n) (offset brk n a) :=
  List.foldl_append

/-- Within one line the offset counts, until the buffer is full. -/
theorem offset_line {line : List α} (h : brk ∉ line) : offset brk n line = line.length % n := by
  induction line using List.reverseRecOn with
  | nil => exact (Nat.zero_mod n).symm
  | append_singleton line c ih =>
    rw [List.mem_append, List.mem_singleton, not_or] at h
    rw [offset_append, ih h.1, List.foldl_cons, List.foldl_nil, if_neg (Ne.symm h.2), List.length_append,
      List.length_singleton, Nat.mod_add_mod]

theorem offset_le (brk : α) (n : Nat) (text : List α) : offset brk n text ≤ text.length := by
  induction text using List.reverseRecOn with
  | nil => exact Nat.le_refl 0
  | append_singleton text c ih =>
    rw [offset_append, List.foldl_cons, List.foldl_nil, List.length_append, List.length_singleton]
    split
    · exact Nat.zero_le _
    · exact (Nat.mod_le _ n).trans (Nat.succ_le_succ ih)

/-- **Behind a piece that another one follows, counting starts anew.** -/
theorem offset_piece {first : List α} (h : offset brk n first = 0) (later : List α) :
    offset brk n (first ++ later) = offset brk n later := by
  rw [offset_append, h]
  rfl

/-! ## What is seen -/

/-- An occurrence that begins behind the first piece is seen in the text behind it. -/
theorem visible_append {first : List α} (h : offset brk n first = 0) {pattern rest : List α}
    (hv : Visible brk stop n pattern rest) : Visible brk stop n pattern (first ++ rest) := by
  obtain ⟨before, after, rfl, hbreak, hfit, hstop⟩ := hv
  refine ⟨first ++ before, after, by simp, hbreak, ?_, ?_⟩
  · rwa [offset_piece h]
  · have hle := offset_le brk n before
    rw [offset_piece h, List.length_append, Nat.add_sub_assoc hle, List.drop_length_add_append]
    exact hstop

/-- What the search needs of the first piece. -/
theorem piece_spec (brk : α) (hn : 0 < n) {text : List α} (hne : text ≠ []) :
    ∃ rest, text = piece brk n text ++ rest ∧ brk ∉ (piece brk n text).dropLast ∧
      (piece brk n text).length ≤ n ∧ (rest = [] ∨ offset brk n (piece brk n text) = 0) ∧
      (rest = [] ∨ brk ∈ piece brk n text ∨ (piece brk n text).length = n) := by
  obtain ⟨line, rest, hline, ⟨hpiece, htext, hlt⟩ | ⟨hpiece, htext, -, hle, hends⟩⟩ :=
    piece_cases brk hn hne
  · rw [hpiece]
    refine ⟨rest, by rw [htext]; simp, ?_, ?_, Or.inr ?_, Or.inr (Or.inl (by simp))⟩
    · rwa [List.dropLast_concat]
    · rw [List.length_append, List.length_singleton]
      omega
    · rw [offset_append, List.foldl_cons, List.foldl_nil, if_pos rfl]
  · rw [hpiece]
    refine ⟨rest, htext, fun h => hline (List.dropLast_subset _ h), hle, ?_, hends.imp_right Or.inr⟩
    exact hends.imp_right fun hfull => by rw [offset_line hline, hfull, Nat.mod_self]

/-- In front of the last element of a piece the offset is the position. -/
theorem offset_of_prefix {first before : List α} (hbreak : brk ∉ first.dropLast) (hle : first.length ≤ n)
    (hfront : before <+: first) (hlt : before.length < first.length) :
    offset brk n before = before.length := by
  have hinner : before <+: first.dropLast := by
    refine List.prefix_of_prefix_length_le hfront (List.dropLast_prefix first) ?_
    rw [List.length_dropLast]
    omega
  rw [offset_line fun h => hbreak (hinner.subset h), Nat.mod_eq_of_lt (by omega)]

/-- **An occurrence is seen** in the first piece or in the text behind it. -/
theorem visible_iff (hn : 0 < n) {text pattern : List α} (hne : text ≠ []) (hpattern : pattern ≠ [])
    (hnostop : stop ∉ pattern) :
    Visible brk stop n pattern text ↔ pattern <:+: (piece brk n text).takeWhile (· != stop) ∨
      Visible brk stop n pattern (text.drop (piece brk n text).length) := by
  obtain ⟨rest, htext, hbrk, hle, hoffset, hends⟩ := piece_spec brk hn hne
  have hpos : 0 < pattern.length := List.length_pos_of_ne_nil hpattern
  have hdrop : ∀ {first : List α}, text = first ++ rest → text.drop first.length = rest := by
    rintro first rfl
    exact List.drop_left
  rw [hdrop htext]
  generalize piece brk n text = first at htext hbrk hle hoffset hends
  constructor
  · rintro ⟨before, after, hsplit, hinner, hfit, hstop⟩
    rw [htext] at hsplit
    rcases Nat.lt_or_ge before.length first.length with hlt | hge
    · -- the occurrence begins in the first piece, and then ends there
      have hbefore : before <+: first :=
        List.prefix_of_prefix_length_le ⟨pattern ++ after, by rw [hsplit, List.append_assoc]⟩
          (List.prefix_append first rest) (Nat.le_of_lt hlt)
      have hcount := offset_of_prefix hbrk hle hbefore hlt
      rw [hcount] at hfit hstop
      rw [Nat.sub_self, List.drop_zero] at hstop
      have hlen : before.length + pattern.length ≤ first.length := by
        by_contra hlong
        have htotal := congrArg List.length hsplit
        rw [List.length_append, List.length_append, List.length_append] at htotal
        rcases hends with rfl | hmem | hfull
        · rw [List.length_nil] at htotal
          omega
        · -- the break of the piece would stand inside the pattern
          have hcover : first <+: before ++ pattern.dropLast := by
            refine List.prefix_of_prefix_length_le (List.prefix_append first rest)
              (hsplit ▸ append_dropLast_prefix before pattern after) ?_
            rw [List.length_append, List.length_dropLast]
            omega
          rcases List.mem_append.mp (hcover.subset hmem) with hmem | hmem
          · have hinside : before <+: first.dropLast := by
              refine List.prefix_of_prefix_length_le hbefore (List.dropLast_prefix first) ?_
              rw [List.length_dropLast]
              omega
            exact hbrk (hinside.subset hmem)
          · exact hinner hmem
        · omega
      obtain ⟨t, ht⟩ : before ++ pattern <+: first :=
        List.prefix_of_prefix_length_le ⟨after, hsplit.symm⟩ (List.prefix_append first rest)
          (by rw [List.length_append]; exact hlen)
      left
      rw [← ht, List.takeWhile_append_of_pos]
      · exact ⟨before, t.takeWhile (· != stop), rfl⟩
      · intro c hc
        rw [bne_iff_ne]
        rintro rfl
        exact (List.mem_append.mp hc).elim hstop hnostop
    · obtain ⟨before', rfl⟩ : first <+: before :=
        List.prefix_of_prefix_length_le (List.prefix_append first rest)
          ⟨pattern ++ after, by rw [hsplit, List.append_assoc]⟩ hge
      rw [List.append_assoc, List.append_assoc] at hsplit
      have hrest := List.append_cancel_left hsplit
      rcases hoffset with rfl | hzero
      · exact absurd (List.append_eq_nil_iff.mp hrest.symm).2 (by simp [hpattern])
      · have hcount := offset_le brk n before'
        rw [offset_piece hzero] at hfit hstop
        rw [List.length_append, Nat.add_sub_assoc hcount, List.drop_length_add_append] at hstop
        exact Or.inr ⟨before', after, by rw [hrest, List.append_assoc], hinner, hfit, hstop⟩
  · rintro (⟨before, t, hcut⟩ | hlater)
    · have hfirst : first = before ++ pattern ++ (t ++ first.dropWhile (· != stop)) := by
        conv_lhs => rw [← List.takeWhile_append_dropWhile (p := (· != stop)) (l := first), ← hcut]
        simp
      generalize t ++ first.dropWhile (· != stop) = u at hfirst
      have hlen : first.length = before.length + pattern.length + u.length := by
        rw [hfirst, List.length_append, List.length_append]
      have hbefore : before <+: first := ⟨pattern ++ u, by rw [hfirst, List.append_assoc]⟩
      have hcount := offset_of_prefix hbrk hle hbefore (by omega)
      refine ⟨before, u ++ rest, ?_, ?_, by rw [hcount]; omega, ?_⟩
      · rw [htext, hfirst, List.append_assoc]
      · have hinside : before ++ pattern.dropLast <+: first.dropLast := by
          refine List.prefix_of_prefix_length_le
            (hfirst.symm ▸ append_dropLast_prefix before pattern u) (List.dropLast_prefix first) ?_
          rw [List.length_append, List.length_dropLast, List.length_dropLast]
          omega
        exact fun h => hbrk (hinside.subset (List.mem_append_right _ h))
      · rw [hcount, Nat.sub_self, List.drop_zero]
        intro h
        have hmem : stop ∈ first.takeWhile (· != stop) := by
          rw [← hcut]
          exact List.mem_append_left _ (List.mem_append_left _ h)
        exact not_mem_takeWhile stop first hmem
    · rcases hoffset with rfl | hzero
      · obtain ⟨before, after, hnil, -⟩ := hlater
        exact absurd (List.append_eq_nil_iff.mp (List.append_eq_nil_iff.mp hnil.symm).1).2 hpattern
      · rw [htext]
        exact visible_append hzero hlater

end Lib.Buffered
