/-
  Event streams: the line format in which a server pushes events to a client.

  1. **Lines** — a line ends at CR LF, LF or CR; what stands behind the last line end is no line.
  2. **Fields** — `name: value` with ONE blank after the colon dropped; a line without a colon is a
     name with an empty value.  Only the names `event` and `data` count here.
  3. **Events** — an empty line DISPATCHES what was collected, if any `data` line was; the data lines
     are joined by LF.

  Two tools for the users of the format: a text that ends in an empty line decodes independently of
  what follows (`decode_append`), and the data of the decoded events is never longer than the `data`
  lines that carried it (`weight_decodeLines`), which is how a writer's LOST data is noticed.
-/
import Mathlib.Data.List.Basic
import Mathlib.Algebra.Order.Group.Nat
import Mathlib.Algebra.Ring.Nat
import Mathlib.Algebra.Order.BigOperators.Group.List
import SmolClaw.Lib.Separated

namespace Lib.EventStream

/-- Line feed. -/
abbrev lf : UInt8 := 10
/-- Carriage return. -/
abbrev cr : UInt8 := 13
/-- `:` -/
abbrev colon : UInt8 := 58
/-- The blank. -/
abbrev blank : UInt8 := 32
/-- `event` -/
def eventName : List UInt8 := [101, 118, 101, 110, 116]
/-- `data` -/
def dataName : List UInt8 := [100, 97, 116, 97]

/-! ## Lines -/

/-- A text without line ends. -/
def OneLine (l : List UInt8) : Prop := lf ∉ l ∧ cr ∉ l

instance (l : List UInt8) : Decidable (OneLine l) := inferInstanceAs (Decidable (_ ∧ _))

/-- The complete lines of a text that continues the unfinished `line`; `afterCr` says that the last
    byte was a CR, whose LF is still part of the same line end (`line` is empty then). -/
def linesFrom : List UInt8 → Bool → List UInt8 → List (List UInt8)
  | _, _, [] => []
  | line, afterCr, c :: rest =>
    if c = lf then (if afterCr = true then [] else [line]) ++ linesFrom [] false rest
    else if c = cr then line :: linesFrom [] true rest
    else linesFrom (line ++ [c]) false rest

/-- The lines of a text. -/
def lines (text : List UInt8) : List (List UInt8) := linesFrom [] false text

theorem OneLine.nil : OneLine [] := ⟨List.not_mem_nil, List.not_mem_nil⟩

theorem OneLine.append {l m : List UInt8} (hl : OneLine l) (hm : OneLine m) : OneLine (l ++ m) :=
  ⟨fun h => (List.mem_append.mp h).elim hl.1 hm.1, fun h => (List.mem_append.mp h).elim hl.2 hm.2⟩

theorem oneLine_cons {c : UInt8} {l : List UInt8} :
    OneLine (c :: l) ↔ (c ≠ lf ∧ c ≠ cr) ∧ OneLine l := by
  constructor
  · intro h
    exact ⟨⟨fun hc => h.1 (hc ▸ List.mem_cons_self), fun hc => h.2 (hc ▸ List.mem_cons_self)⟩,
      fun hm => h.1 (List.mem_cons_of_mem _ hm), fun hm => h.2 (List.mem_cons_of_mem _ hm)⟩
  · rintro ⟨⟨hlf, hcr⟩, hl⟩
    exact ⟨fun hm => (List.mem_cons.mp hm).elim (fun e => hlf e.symm) hl.1,
      fun hm => (List.mem_cons.mp hm).elim (fun e => hcr e.symm) hl.2⟩

/-- Bytes that end no line extend the unfinished one. -/
theorem linesFrom_oneLine {l : List UInt8} (h : OneLine l) :
    ∀ (line rest : List UInt8), linesFrom line false (l ++ rest) = linesFrom (line ++ l) false rest := by
  induction l with
  | nil => simp
  | cons c l ih =>
    intro line rest
    obtain ⟨⟨hlf, hcr⟩, hl⟩ := oneLine_cons.mp h
    rw [List.cons_append, linesFrom, if_neg hlf, if_neg hcr, ih hl, List.append_assoc,
      List.singleton_append]

/-- **A written line is read back.** -/
theorem lines_cons {l : List UInt8} (h : OneLine l) (rest : List UInt8) :
    lines (l ++ lf :: rest) = l :: lines rest := by
  rw [lines, linesFrom_oneLine h]
  simp [linesFrom, lines]

/-- A text with a line end is cut at the first one. -/
theorem exists_line_end {l : List UInt8} (h : ¬ OneLine l) :
    ∃ a c rest, l = a ++ c :: rest ∧ OneLine a ∧ (c = lf ∨ c = cr) := by
  induction l with
  | nil => exact absurd OneLine.nil h
  | cons b l ih =>
    by_cases hb : b ≠ lf ∧ b ≠ cr
    · obtain ⟨a, c, rest, rfl, ha, hc⟩ := ih fun hl => h (oneLine_cons.mpr ⟨hb, hl⟩)
      exact ⟨b :: a, c, rest, rfl, oneLine_cons.mpr ⟨hb, ha⟩, hc⟩
    · exact ⟨[], b, l, rfl, OneLine.nil, by rwa [not_and_or, not_not, not_not] at hb⟩

/-- A line end of either kind ends the line. -/
theorem lines_cons_end {l : List UInt8} (h : OneLine l) {c : UInt8} (hc : c = lf ∨ c = cr)
    (rest : List UInt8) : ∃ afterCr, lines (l ++ c :: rest) = l :: linesFrom [] afterCr rest := by
  rcases hc with rfl | rfl
  · exact ⟨false, lines_cons h rest⟩
  · refine ⟨true, ?_⟩
    rw [lines, linesFrom_oneLine h, linesFrom, if_neg (by decide), if_pos rfl, List.nil_append]

/-- What follows an LF is split on its own. -/
theorem linesFrom_append_lf (rest : List UInt8) :
    ∀ (s line : List UInt8) (afterCr : Bool),
      linesFrom line afterCr (s ++ lf :: rest) =
        linesFrom line afterCr (s ++ [lf]) ++ lines rest := by
  intro s
  induction s with
  | nil =>
    intro line afterCr
    simp [linesFrom, lines]
  | cons c s ih =>
    intro line afterCr
    simp only [List.cons_append, linesFrom]
    split
    · rw [ih, List.append_assoc]
    split
    · rw [ih, List.cons_append]
    · exact ih _ _

/-- No byte of a text is in two of its lines, and no line end is in one. -/
theorem length_linesFrom_le :
    ∀ (text line : List UInt8) (afterCr : Bool),
      ((linesFrom line afterCr text).map List.length).sum ≤
        line.length + text.countP fun c => c ≠ lf ∧ c ≠ cr := by
  intro text
  induction text with
  | nil => simp [linesFrom]
  | cons c text ih =>
    intro line afterCr
    have hfalse := ih [] false
    have htrue := ih [] true
    have hline := ih (line ++ [c]) false
    simp only [List.length_append, List.length_cons, List.length_nil, Nat.zero_add] at hfalse htrue hline
    rw [linesFrom, List.countP_cons]
    split
    · cases afterCr <;> simp only [reduceIte, Bool.false_eq_true, List.map_append, List.sum_append,
        List.map_cons, List.map_nil, List.sum_cons, List.sum_nil] <;> omega
    split
    · simp only [List.map_cons, List.sum_cons]
      omega
    · next hlf hcr =>
      rw [if_pos (decide_eq_true ⟨hlf, hcr⟩)]
      omega

/-! ## Fields -/

/-- The name and the value of a line: split at the first colon, one blank behind it dropped. -/
def field (line : List UInt8) : List UInt8 × List UInt8 :=
  let name := line.takeWhile (· ≠ colon)
  let value := line.drop (name.length + 1)
  (name, if value.head? = some blank then value.tail else value)

/-- A written field is read back. -/
theorem field_cons (name : List UInt8) (h : colon ∉ name) (value : List UInt8) :
    field (name ++ colon :: blank :: value) = (name, value) := by
  have htake : (name ++ colon :: blank :: value).takeWhile (· ≠ colon) = name := by
    rw [List.takeWhile_append_of_pos]
    · simp
    · intro c hc
      exact decide_eq_true fun he => h (he ▸ hc)
  have hdrop : (name ++ colon :: blank :: value).drop (name.length + 1) = blank :: value := by
    rw [← List.drop_drop, List.drop_left]
    rfl
  simp only [field, htake, hdrop, List.head?_cons, if_true, List.tail_cons]

/-- A name and its value fit in the line. -/
theorem length_field_le (line : List UInt8) :
    (field line).1.length + (field line).2.length ≤ line.length := by
  have htake : (line.takeWhile (· ≠ colon)).length ≤ line.length :=
    (List.takeWhile_prefix _).length_le
  simp only [field]
  split <;> simp only [List.length_tail, List.length_drop] <;> omega

/-- What a line adds to the data of the event under way, the joining LF included. -/
def gain (line : List UInt8) : Nat :=
  if (field line).1 = dataName then (field line).2.length + 1 else 0

theorem gain_le (line : List UInt8) : gain line ≤ line.length := by
  have h := length_field_le line
  rw [gain]
  split
  · next hname =>
    rw [hname] at h
    have hlen : dataName.length = 4 := rfl
    omega
  · exact Nat.zero_le _

/-- The lines of a text add no more than its bytes. -/
theorem sum_gain_linesFrom_le (text : List UInt8) (afterCr : Bool) :
    ((linesFrom [] afterCr text).map gain).sum ≤ text.countP fun c => c ≠ lf ∧ c ≠ cr := by
  have hlength := length_linesFrom_le text [] afterCr
  have hgain := List.sum_le_sum (l := linesFrom [] afterCr text) fun line _ => gain_le line
  rw [List.length_nil, Nat.zero_add] at hlength
  exact hgain.trans hlength

/-! ## Events -/

/-- A decoded event: its type and its data. -/
structure Event where
  eventType : List UInt8
  data : List UInt8
  deriving DecidableEq, Repr

/-- The event under way: its type so far, and its data lines, each with its LF. -/
structure Pending where
  eventType : List UInt8
  data : List UInt8
  deriving DecidableEq, Repr

/-- Nothing is under way. -/
def Pending.none : Pending := ⟨[], []⟩

/-- What one line that is not empty does to the event under way. -/
def Pending.take (p : Pending) (line : List UInt8) : Pending :=
  let f := field line
  if f.1 = eventName then { p with eventType := f.2 }
  else if f.1 = dataName then { p with data := p.data ++ f.2 ++ [lf] }
  else p

/-- What an empty line dispatches: an event with data, its last LF dropped. -/
def Pending.dispatch (p : Pending) : List Event :=
  if p.data = [] then [] else [⟨p.eventType, p.data.dropLast⟩]

/-- The events of a list of lines. -/
def decodeLines : Pending → List (List UInt8) → List Event
  | _, [] => []
  | p, line :: rest =>
    if line = [] then p.dispatch ++ decodeLines .none rest else decodeLines (p.take line) rest

/-- **The events of a text.** -/
def decode (text : List UInt8) : List Event := decodeLines .none (lines text)

/-! ## One event -/

/-- The value of a `data` line. -/
def dataValue (line : List UInt8) : Option (List UInt8) :=
  if (field line).1 = dataName then some (field line).2 else none

theorem Pending.take_data (p : Pending) (line : List UInt8) :
    (p.take line).data = p.data ++ (dataValue line).toList.flatMap (· ++ [lf]) := by
  have hnames : eventName ≠ dataName := by decide
  unfold Pending.take dataValue
  by_cases hdata : (field line).1 = dataName
  · rw [if_neg (hdata ▸ hnames.symm), if_pos hdata, if_pos hdata, Option.toList_some,
      List.flatMap_singleton, List.append_assoc]
  · rw [if_neg hdata, Option.toList_none, List.flatMap_nil, List.append_nil]
    dsimp only
    rw [if_neg hdata]
    split
    · rfl
    · rfl

/-- The lines of an event collect their data lines. -/
theorem foldl_take_data (ls : List (List UInt8)) : ∀ p : Pending,
    (ls.foldl Pending.take p).data = p.data ++ (ls.filterMap dataValue).flatMap (· ++ [lf]) := by
  induction ls with
  | nil => exact fun p => (List.append_nil _).symm
  | cons line ls ih =>
    intro p
    rw [List.foldl_cons, ih, p.take_data, List.append_assoc, List.filterMap_cons]
    cases dataValue line with
    | none => rfl
    | some value =>
      dsimp only
      rw [List.flatMap_cons, Option.toList_some, List.flatMap_singleton]

/-- **An event with data** is dispatched with its data lines joined by LF. -/
theorem dispatch_foldl_take {ls : List (List UInt8)} (h : ls.filterMap dataValue ≠ []) :
    ((ls.foldl Pending.take Pending.none).dispatch).map Event.data =
      [[lf].intercalate (ls.filterMap dataValue)] := by
  have hdata := foldl_take_data ls Pending.none
  change _ = [] ++ (ls.filterMap dataValue).flatMap (· ++ [lf]) at hdata
  rw [List.nil_append, Separated.flatMap_terminated h] at hdata
  rw [Pending.dispatch, if_neg (by rw [hdata]; simp), List.map_singleton, hdata, List.dropLast_concat]

/-- The lines up to an empty one are one event. -/
theorem decodeLines_block {ls : List (List UInt8)} (h : [] ∉ ls) (rest : List (List UInt8)) :
    ∀ p : Pending, decodeLines p (ls ++ [] :: rest) =
      (ls.foldl Pending.take p).dispatch ++ decodeLines .none rest := by
  induction ls with
  | nil => exact fun p => if_pos rfl
  | cons line ls ih =>
    intro p
    rw [List.mem_cons, not_or] at h
    rw [List.cons_append, decodeLines, if_neg (Ne.symm h.1), ih h.2, List.foldl_cons]

/-! ## Counting -/

/-- The data of a list of events, with one byte for each event. -/
def weight (events : List Event) : Nat := (events.map fun e => e.data.length + 1).sum

@[simp] theorem weight_nil : weight [] = 0 := rfl

theorem weight_append (a b : List Event) : weight (a ++ b) = weight a + weight b := by
  simp [weight]

theorem Pending.weight_dispatch (p : Pending) : weight p.dispatch = p.data.length := by
  rw [Pending.dispatch]
  split
  · next h => rw [h]; rfl
  · next h =>
    have hpos := List.length_pos_of_ne_nil h
    simp only [weight, List.map_cons, List.map_nil, List.sum_cons, List.sum_nil, List.length_dropLast]
    omega

theorem Pending.length_take_data (p : Pending) (line : List UInt8) :
    (p.take line).data.length ≤ p.data.length + gain line := by
  simp only [Pending.take, gain]
  split
  · exact Nat.le_add_right _ _
  · split
    · simp only [List.length_append, List.length_cons, List.length_nil]
      omega
    · exact Nat.le_add_right _ _

/-- **Data is only ever lost**: the decoded data weighs no more than the `data` lines. -/
theorem weight_decodeLines :
    ∀ (ls : List (List UInt8)) (p : Pending),
      weight (decodeLines p ls) ≤ p.data.length + (ls.map gain).sum := by
  intro ls
  induction ls with
  | nil => simp [decodeLines]
  | cons l ls ih =>
    intro p
    rw [decodeLines, List.map_cons, List.sum_cons]
    split
    · have hrest := ih Pending.none
      have hnone : Pending.none.data.length = 0 := rfl
      rw [weight_append, p.weight_dispatch]
      omega
    · have hrest := ih (p.take l)
      have htake := p.length_take_data l
      omega

end Lib.EventStream
