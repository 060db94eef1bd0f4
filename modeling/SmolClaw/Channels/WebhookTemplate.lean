/-
  The templates of named webhooks (`render_template`, `src/channels/webhooks.c`).

  1. **Program** — a round of `renderLoop` writes the text in front of the next `{{`, and what stands for the
     expression up to the next `}}`.  The scan for `{{` looks at two bytes, so that it ends at the LAST byte
     when it finds none.

  2. **Specification** — `Cut placeholderAt`: the template is cut into literals and placeholders first, then
     each placeholder is filled.

  3. **Defects** — the last byte behind the last placeholder is not written, and a number of more than 63
     digits is cut off (`number_text`).

  4. **Result** — `template_iff`: a template renders as written exactly if it ends with a placeholder or has
     an unclosed one, and its numbers are short.
-/
import Mathlib.Data.List.DropRight
import SmolClaw.Json.Parse
import SmolClaw.Lib.Infix
import SmolClaw.Lib.Template

namespace SmolClaw.Channels

open Lib.Infix Lib.Template

/-! ## Program -/

/-- The blanks around an expression. -/
def isTemplateBlank (c : UInt8) : Bool := c == chr ' ' || c == chr '\t'

/-- An expression without the blanks around it. -/
def trimExpr (expr : Bytes) : Bytes := (expr.dropWhile isTemplateBlank).rdropWhile isTemplateBlank

/-- `render_payload_field`; `snprintf` leaves 63 bytes in `number_text`. -/
def renderPayloadField (body field : Bytes) : Res Bytes := do
  let root ← jsonParseStatus body
  let value := root.objectGet field
  match Json.asStr value with
  | some text => .ok text
  | none =>
      match Json.asNumber value with
      | some number => .ok ((formatFixed0 number).take 63)
      | none => .ok []

/-- What `render_template` appends for an expression. -/
def expandExpr (body expr : Bytes) : Res Bytes :=
  if expr = str "payload" then .ok body
  else if str "payload." <+: expr then renderPayloadField body (expr.drop (str "payload.").length)
  else .ok []

/-- The loop of `render_template`: what it appends for the template from `pos` on. -/
def renderLoop (body : Bytes) : Nat → Bytes → Res Bytes
  | 0, _ => .ok []
  | rounds + 1, rest =>
      if rest = [] then .ok []
      else
        match firstInfix (str "\x7b\x7b") rest with
        -- the scan looks at two bytes and stops at the last one
        | none => .ok rest.dropLast
        | some (literal, opened) =>
            match firstInfix (str "\x7d\x7d") (opened.drop 2) with
            | none => .ok (literal ++ opened)
            | some (inside, closed) => do
                let text ← expandExpr body (trimExpr inside)
                let more ← renderLoop body rounds (closed.drop 2)
                .ok (literal ++ (text ++ more))

/-- `render_template` -/
def renderTemplate (template body : Bytes) : Res Bytes :=
  if template = [] then .ok body else renderLoop body (template.length + 1) template

/-! ## Specification -/

/-- The placeholder at the front of a text: what stands in it, and the text behind it. -/
def placeholderAt (s : Bytes) : Option (Bytes × Bytes) :=
  if str "\x7b\x7b" <+: s then
    (firstInfix (str "\x7d\x7d") (s.drop 2)).map fun cut => (trimExpr cut.1, cut.2.drop 2)
  else none

/-- The text of a member of the body: a string, or a number by `%.0f`, which rounds to the nearest integer
    and halves to an even one. -/
def memberText (body field : Bytes) : Bytes :=
  match jsonParse body with
  | .error _ => []
  | .ok root =>
      match root.objectGet field with
      | some (.string text) => text
      | some (.number number) => formatFixed0 number
      | _ => []

/-- What stands for a placeholder. -/
def placeholderText (body expr : Bytes) : Bytes :=
  if expr = str "payload" then body
  else if str "payload." <+: expr then memberText body (expr.drop (str "payload.").length)
  else []

/-- **Rendered as written**: the literals of the template unchanged, with the text of each placeholder in
    between; an empty template gives the body. -/
def RenderedAs (template body out : Bytes) : Prop :=
  (template = [] → out = body) ∧
    (template ≠ [] → ∃ segments tail, Cut placeholderAt template segments tail ∧
      out = segments.flatMap (fillSegment (placeholderText body)) ++ tail)

/-- A placeholder that names no number of more than 63 digits. -/
def NumberFits (body expr : Bytes) : Prop :=
  ∀ field root number, expr = str "payload." ++ field → jsonParse body = .ok root →
    root.objectGet field = some (.number number) → (formatFixed0 number).length ≤ 63

/-- The template ends with a placeholder, or one is not closed; and the numbers in it are short. -/
def Renderable (template body : Bytes) : Prop :=
  ∃ segments tail, Cut placeholderAt template segments tail ∧ (tail = [] ∨ str "\x7b\x7b" <:+: tail) ∧
    ∀ segment ∈ segments, NumberFits body segment.2

/-! ## Placeholders -/

theorem placeholderAt_eq_some {s expr rest : Bytes} (h : placeholderAt s = some (expr, rest)) :
    ∃ inside, s = str "\x7b\x7b" ++ (inside ++ (str "\x7d\x7d" ++ rest)) ∧
      firstInfix (str "\x7d\x7d") (s.drop 2) = some (inside, str "\x7d\x7d" ++ rest) ∧
      expr = trimExpr inside := by
  unfold placeholderAt at h
  split at h
  · next hopen =>
    obtain ⟨behind, rfl⟩ := hopen
    obtain ⟨⟨inside, closed⟩, hfirst, hcut⟩ := Option.map_eq_some_iff.mp h
    obtain ⟨rfl, rfl⟩ := Prod.mk.inj hcut
    obtain ⟨hbehind, ⟨rest, rfl⟩, -⟩ := firstInfix_eq_some (by decide) hfirst
    have hdrop : (str "\x7b\x7b" ++ behind).drop 2 = behind := rfl
    rw [hdrop] at hbehind
    exact ⟨inside, by rw [hbehind]; rfl, hfirst, rfl⟩
  · exact nomatch h

theorem placeholderAt_shortens : Shortens placeholderAt := by
  intro s rest expr h
  obtain ⟨inside, rfl, -, -⟩ := placeholderAt_eq_some h
  simp only [List.length_append]
  have hopen : (str "\x7b\x7b").length = 2 := rfl
  omega

/-- A placeholder begins with its braces. -/
theorem placeholderAt_of_not_prefix {s : Bytes} (h : ¬ str "\x7b\x7b" <+: s) : placeholderAt s = none := if_neg h

/-- A placeholder that is not closed is none. -/
theorem placeholderAt_of_free {s : Bytes} (h : Free (str "\x7d\x7d") (s.drop 2)) : placeholderAt s = none := by
  unfold placeholderAt
  split
  · rw [(firstInfix_eq_none (by decide)).mpr h]
    rfl
  · rfl

/-- Braces that nothing closes open no placeholder, neither there nor behind. -/
theorem placeholderAt_of_unclosed {opened t : Bytes} (h : Free (str "\x7d\x7d") (opened.drop 2))
    (ht : t <:+ opened) : placeholderAt t = none := by
  refine placeholderAt_of_free fun hin => h (hin.trans ?_)
  obtain ⟨front, rfl⟩ := ht
  have hbehind : t.drop 2 = ((front ++ t).drop 2).drop front.length := by
    rw [List.drop_drop, Nat.add_comm, ← List.drop_drop, List.drop_left]
  rw [hbehind]
  exact (List.drop_suffix _ _).isInfix

/-- In front of the first braces there is no placeholder. -/
theorem plainBefore_literal {literal opened : Bytes}
    (hfree : Free (str "\x7b\x7b") (literal ++ (str "\x7b\x7b").dropLast)) (hopen : str "\x7b\x7b" <+: opened) :
    PlainBefore placeholderAt literal opened := by
  intro t hne ht
  refine placeholderAt_of_not_prefix fun hstart => hfree ?_
  -- braces that begin in `t` end before the second brace of `opened`
  obtain ⟨behind, rfl⟩ := hopen
  have hfront : t ++ (str "\x7b\x7b").dropLast <+: t ++ (str "\x7b\x7b" ++ behind) :=
    (List.prefix_append_right_inj t).mpr ((List.dropLast_prefix _).trans (List.prefix_append _ _))
  have hlength : (str "\x7b\x7b").length ≤ (t ++ (str "\x7b\x7b").dropLast).length := by
    have hpos := List.length_pos_iff.mpr hne
    rw [List.length_append]
    show 2 ≤ t.length + 1
    omega
  have hin := (List.prefix_of_prefix_length_le hstart hfront hlength).isInfix
  obtain ⟨front, rfl⟩ := ht
  rw [List.append_assoc]
  exact hin.trans (List.suffix_append front _).isInfix

/-- **What is appended for an expression** is what stands for it, or the front of it when a number does not
    fit. -/
theorem expandExpr_ok {body expr text : Bytes} (h : expandExpr body expr = .ok text) :
    text <+: placeholderText body expr ∧ (text = placeholderText body expr ↔ NumberFits body expr) := by
  unfold expandExpr at h
  unfold placeholderText
  by_cases hbody : expr = str "payload"
  · rw [if_pos hbody] at h ⊢
    obtain rfl := Except.ok.inj h
    refine ⟨List.prefix_rfl, iff_of_true rfl fun field _ _ hexpr _ _ => ?_⟩
    -- there is no point in `payload`
    have hpoint : chr '.' ∈ expr := by
      rw [hexpr]
      exact List.mem_append_left field (by decide)
    rw [hbody] at hpoint
    exact absurd hpoint (by decide)
  · rw [if_neg hbody] at h ⊢
    by_cases hfield : str "payload." <+: expr
    · rw [if_pos hfield] at h ⊢
      obtain ⟨field, rfl⟩ := hfield
      rw [List.drop_left] at h ⊢
      obtain ⟨root, hroot, h⟩ := Res.bind_eq_ok.mp h
      have hparse : jsonParse body = .ok root := by
        unfold jsonParseStatus at hroot
        split at hroot
        · next hok => rw [hok, Except.ok.inj hroot]
        · exact absurd hroot (Status.parse_ne_ok _ _)
      have hfits : NumberFits body (str "payload." ++ field) ↔
          ∀ number, root.objectGet field = some (.number number) → (formatFixed0 number).length ≤ 63 := by
        constructor
        · exact fun hfits number => hfits field root number rfl hparse
        · intro hfits other root' number hother hparse'
          obtain rfl := List.append_cancel_left hother
          obtain rfl := Except.ok.inj (hparse.symm.trans hparse')
          exact hfits number
      rw [hfits, memberText, hparse]
      dsimp only at h ⊢
      generalize root.objectGet field = value at h ⊢
      cases value with
      | none =>
        obtain rfl := Except.ok.inj h
        exact ⟨List.prefix_rfl, iff_of_true rfl nofun⟩
      | some value =>
        cases value with
        | number number =>
          obtain rfl := Except.ok.inj h
          refine ⟨List.take_prefix _ _, ?_⟩
          dsimp only
          rw [List.take_eq_self_iff]
          constructor
          · rintro hle _ heq
            obtain rfl := Json.number.inj (Option.some.inj heq)
            exact hle
          · exact fun hle => hle number rfl
        | string text =>
          obtain rfl := Except.ok.inj h
          exact ⟨List.prefix_rfl, iff_of_true rfl nofun⟩
        | null | bool _ | array _ | object _ =>
          obtain rfl := Except.ok.inj h
          exact ⟨List.prefix_rfl, iff_of_true rfl nofun⟩
    · rw [if_neg hfield] at h ⊢
      obtain rfl := Except.ok.inj h
      refine ⟨List.prefix_rfl, iff_of_true rfl fun field _ _ hexpr _ _ => ?_⟩
      exact absurd ⟨field, hexpr.symm⟩ hfield

/-- Two texts of which the first parts begin alike and the second are no longer. -/
theorem append_eq_append_iff_of_le {text full more rest : Bytes} (hfront : text <+: full)
    (hle : more.length ≤ rest.length) : text ++ more = full ++ rest ↔ text = full ∧ more = rest := by
  constructor
  · intro h
    have hlengths := congrArg List.length h
    rw [List.length_append, List.length_append] at hlengths
    have hshort := hfront.length_le
    have htext := hfront.eq_of_length (by omega)
    rw [htext] at h
    exact ⟨htext, List.append_cancel_left h⟩
  · rintro ⟨rfl, rfl⟩
    rfl

/-! ## The loop -/

/-- **What the loop writes**, by induction on its rounds: never more than it should, and exactly that if
    nothing is left out. -/
theorem renderLoop_spec {body : Bytes} : ∀ (rounds : Nat) (rest out : Bytes), rest.length < rounds →
    renderLoop body rounds rest = .ok out → ∃ segments tail, Cut placeholderAt rest segments tail ∧
      out.length ≤ (segments.flatMap (fillSegment (placeholderText body)) ++ tail).length ∧
      (out = segments.flatMap (fillSegment (placeholderText body)) ++ tail ↔
        (tail = [] ∨ str "\x7b\x7b" <:+: tail) ∧ ∀ segment ∈ segments, NumberFits body segment.2) := by
  intro rounds
  induction rounds with
  | zero => intro rest out hrest; exact absurd hrest (Nat.not_lt_zero _)
  | succ rounds ih =>
    intro rest out hrest h
    rw [renderLoop] at h
    split at h
    · next hnil =>
      obtain rfl := Except.ok.inj h
      rw [hnil]
      refine ⟨[], [], .plain fun t hne ht => absurd (List.suffix_nil.mp ht) hne, Nat.le_refl _, ?_⟩
      exact iff_of_true rfl ⟨Or.inl rfl, nofun⟩
    · next hne =>
      split at h
      · next hnone =>
        -- no braces: the last byte is lost
        obtain rfl := Except.ok.inj h
        have hfree := (firstInfix_eq_none (by decide)).mp hnone
        refine ⟨[], rest, .plain fun t _ ht => ?_, ?_, iff_of_false ?_ ?_⟩
        · rw [List.append_nil]
          exact placeholderAt_of_not_prefix fun hstart =>
            hfree (hstart.isInfix.trans ht.isInfix)
        · exact (List.dropLast_prefix rest).length_le
        · intro heq
          have hlength := congrArg List.length heq
          have hpos := List.length_pos_iff.mpr hne
          rw [List.length_dropLast, List.flatMap_nil, List.nil_append] at hlength
          omega
        · exact fun hcond => hcond.1.elim hne hfree
      · next literal opened hopen =>
        obtain ⟨rfl, hopened, hfree⟩ := firstInfix_eq_some (by decide) hopen
        have hplain := plainBefore_literal hfree hopened
        split at h
        · next hnone =>
          -- the braces are not closed: everything is literal
          obtain rfl := Except.ok.inj h
          have hopenFree := (firstInfix_eq_none (by decide)).mp hnone
          obtain ⟨behind, rfl⟩ := hopened
          refine ⟨[], literal ++ (str "\x7b\x7b" ++ behind), .plain fun t hne ht => ?_, Nat.le_refl _,
            iff_of_true rfl ⟨Or.inr ?_, nofun⟩⟩
          · rw [List.append_nil]
            obtain ⟨skipped, ht⟩ := ht
            rcases List.append_eq_append_iff.mp ht with ⟨front, hliteral, rfl⟩ | ⟨front, -, hbehind⟩
            · by_cases hnil : front = []
              · rw [hnil]
                exact placeholderAt_of_unclosed hopenFree List.suffix_rfl
              · exact hplain front hnil ⟨skipped, hliteral.symm⟩
            · exact placeholderAt_of_unclosed hopenFree ⟨front, hbehind.symm⟩
          · exact (List.prefix_append _ behind).isInfix.trans (List.suffix_append literal _).isInfix
        · next inside closed hclose =>
          obtain ⟨text, htext, h⟩ := Res.bind_eq_ok.mp h
          obtain ⟨more, hmore, h⟩ := Res.bind_eq_ok.mp h
          obtain rfl := Except.ok.inj h
          have hfound : placeholderAt opened = some (trimExpr inside, closed.drop 2) := by
            rw [placeholderAt, if_pos hopened, hclose]
            rfl
          have hshort := placeholderAt_shortens hfound
          rw [List.length_append] at hrest
          obtain ⟨segments, tail, hcut, hle, hiff⟩ := ih (closed.drop 2) more (by omega) hmore
          obtain ⟨hfront, hfits⟩ := expandExpr_ok htext
          refine ⟨(literal, trimExpr inside) :: segments, tail, .hole hplain hfound hcut, ?_, ?_⟩
          · rw [List.flatMap_cons, fillSegment]
            simp only [List.length_append] at hle ⊢
            have hlength := hfront.length_le
            omega
          · rw [List.flatMap_cons, fillSegment, List.append_assoc, List.append_assoc,
              List.append_right_inj, append_eq_append_iff_of_le hfront hle, hfits, hiff, List.forall_mem_cons]
            exact and_left_comm

/-! ## Result -/

/-- **A template renders as written** exactly if it ends with a placeholder or has an unclosed one, and the
    numbers it names are short. -/
theorem template_iff {template body out : Bytes} (h : renderTemplate template body = .ok out) :
    RenderedAs template body out ↔ Renderable template body := by
  unfold renderTemplate at h
  split at h
  · next hnil =>
    obtain rfl := Except.ok.inj h
    rw [hnil]
    refine iff_of_true ⟨fun _ => rfl, fun hne => absurd rfl hne⟩ ⟨[], [], .plain ?_, Or.inl rfl, nofun⟩
    exact fun t hne ht => absurd (List.suffix_nil.mp ht) hne
  · next hne =>
    obtain ⟨segments, tail, hcut, -, hiff⟩ := renderLoop_spec _ _ _ (Nat.lt_succ_self _) h
    constructor
    · rintro ⟨-, hout⟩
      obtain ⟨segments', tail', hcut', hout⟩ := hout hne
      obtain ⟨rfl, rfl⟩ := hcut.unique placeholderAt_shortens hcut'
      exact ⟨_, _, hcut, hiff.mp hout⟩
    · rintro ⟨segments', tail', hcut', hcond⟩
      obtain ⟨rfl, rfl⟩ := hcut.unique placeholderAt_shortens hcut'
      exact ⟨fun hnil => absurd hnil hne, fun _ => ⟨_, _, hcut, hiff.mpr hcond⟩⟩

/-- A greeting with the whole body behind it. -/
theorem template_payload :
    renderTemplate (str "Hi \x7b\x7b payload \x7d\x7d") (str "Bob") = .ok (str "Hi Bob") ∧
      (RenderedAs (str "Hi \x7b\x7b payload \x7d\x7d") (str "Bob") (str "Hi Bob") ↔
        Renderable (str "Hi \x7b\x7b payload \x7d\x7d") (str "Bob")) :=
  have h : renderTemplate (str "Hi \x7b\x7b payload \x7d\x7d") (str "Bob") = .ok (str "Hi Bob") := by rfl
  ⟨h, template_iff h⟩

/-- **The last byte is lost** from a template that ends in text. -/
theorem template_loses_last_byte :
    ¬ ∀ template body out : Bytes, renderTemplate template body = .ok out → RenderedAs template body out := by
  intro hall
  obtain ⟨-, hout⟩ := hall (str "Hello") [] (str "Hell") (by rfl)
  obtain ⟨segments, tail, hcut, hout⟩ := hout (by decide)
  have hplain : Cut placeholderAt (str "Hello") [] (str "Hello") := by
    refine .plain fun t _ ht => placeholderAt_of_not_prefix fun hstart => ?_
    rw [List.append_nil] at hstart
    -- no braces in the text
    exact absurd ((hstart.isInfix.trans ht.isInfix).subset List.mem_cons_self) (by decide)
  obtain ⟨rfl, rfl⟩ := hcut.unique placeholderAt_shortens hplain
  exact absurd hout (by decide)

end SmolClaw.Channels
