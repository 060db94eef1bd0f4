/-
  Percent escapes: a text in which some symbols may not stand is written with each of them as a mark
  and two digits.

  1. **Codec** — `escape` writes the digits `enc` gives for a special symbol; `unescape` reads two digits
     behind every mark with `dec` and takes everything else as it stands.

  2. **Results** — `unescape_escape`, the round trip: `dec` has to read what `enc` writes, and the mark
     itself has to be special.  `not_mem_escape`: a special symbol that is no digit and no mark does not
     stand in an escaped text, so it may separate several of them.
-/
import Mathlib.Data.List.Basic

namespace Lib.Percent

variable {α : Type*} (mark : α) (special : α → Bool) (enc : α → α × α)

/-- One symbol as it is written. -/
def escapeOne (c : α) : List α := if special c then [mark, (enc c).1, (enc c).2] else [c]

/-- Every special symbol behind a mark, as its two digits. -/
def escape (text : List α) : List α := text.flatMap (escapeOne mark special enc)

/-- The text an escaped one stands for; none when a mark has no two digits behind it. -/
def unescape [DecidableEq α] (dec : α → α → Option α) : List α → Option (List α)
  | [] => some []
  | c :: rest =>
      if c = mark then
        match rest with
        | high :: low :: rest => (dec high low).bind fun b => (unescape dec rest).map (b :: ·)
        | _ => none
      else (unescape dec rest).map (c :: ·)

variable {mark special enc}

@[simp] theorem escape_nil : escape mark special enc [] = [] := rfl

@[simp] theorem escape_cons (c : α) (text : List α) :
    escape mark special enc (c :: text) = escapeOne mark special enc c ++ escape mark special enc text :=
  rfl

theorem unescape_mark [DecidableEq α] {dec : α → α → Option α} (high low : α) (rest : List α) :
    unescape mark dec (mark :: high :: low :: rest) =
      (dec high low).bind fun b => (unescape mark dec rest).map (b :: ·) := by
  rw [unescape, if_pos rfl]

theorem unescape_plain [DecidableEq α] {dec : α → α → Option α} {c : α} (h : c ≠ mark) (rest : List α) :
    unescape mark dec (c :: rest) = (unescape mark dec rest).map (c :: ·) := by
  rw [unescape.eq_def]
  exact if_neg h

/-- **Round trip**: an escaped text is read back. -/
theorem unescape_escape [DecidableEq α] {dec : α → α → Option α}
    (hdec : ∀ c, special c = true → dec (enc c).1 (enc c).2 = some c) (hmark : special mark = true)
    (text : List α) : unescape mark dec (escape mark special enc text) = some text := by
  induction text with
  | nil => rfl
  | cons c text ih =>
    rw [escape_cons, escapeOne]
    by_cases hc : special c = true
    · rw [if_pos hc]
      show unescape mark dec (mark :: (enc c).1 :: (enc c).2 :: escape mark special enc text) = _
      rw [unescape_mark, hdec c hc, ih]
      rfl
    · -- a plain symbol is not the mark
      have hne : c ≠ mark := fun h => hc (h ▸ hmark)
      rw [if_neg hc]
      show unescape mark dec (c :: escape mark special enc text) = _
      rw [unescape_plain hne, ih]
      rfl

/-- **What may separate escaped texts**: a special symbol that no escape is written with. -/
theorem not_mem_escape {x : α} (hx : special x = true)
    (hfree : ∀ c, special c = true → x ≠ mark ∧ x ≠ (enc c).1 ∧ x ≠ (enc c).2) (text : List α) :
    x ∉ escape mark special enc text := by
  intro hmem
  obtain ⟨c, -, hin⟩ := List.mem_flatMap.mp hmem
  rw [escapeOne] at hin
  split at hin
  · rename_i hc
    obtain ⟨hmark, hhigh, hlow⟩ := hfree c hc
    simp only [List.mem_cons, List.not_mem_nil, or_false] at hin
    tauto
  · rename_i hc
    rw [List.mem_singleton.mp hin] at hx
    exact hc hx

example :
    escape '%' (fun c => c == '%' || c == '|') (fun c => if c = '%' then ('2', '5') else ('7', 'C'))
      "a|b%".toList = "a%7Cb%25".toList := by decide

end Lib.Percent
