/-
  Private IPv4 hosts, in every spelling (`src/net/url.c` against `src/net/http_client.c`).

  1. **Specification** — `inetAton`: the address a host names when it is read as `inet_aton` reads it:
     one to four parts, each decimal, octal after a leading `0` or hexadecimal after `0x`, the last
     part filling the remaining bytes, with or without one trailing dot.

  2. **Program** — `sc_url_host_is_private_address` only knows four DECIMAL parts; its reader is
     `strtol`, so an octal part is read in base ten.  `Dotted 4` is the exact shape it reads
     (`parseOctets_iff`).

  3. **Result** — `privateHosts_iff`: the hosts that are recognised, the canonical hosts on which the
     two tables agree, and the URLs that are refused.
-/
import SmolClaw.Core.Utf8
import SmolClaw.Net.Url

namespace SmolClaw.Net

open SmolClaw.Security

/-! ## The grammar of `inet_aton` -/

/-- The value of a hexadecimal digit. -/
def hexDigitValue (c : UInt8) : Nat :=
  if isDigit c then c.toNat - 48 else if chr 'a' ≤ c then c.toNat - 87 else c.toNat - 55

def isHexDigit (c : UInt8) : Bool :=
  isDigit c || (chr 'a' ≤ c && c ≤ chr 'f') || (chr 'A' ≤ c && c ≤ chr 'F')

def isOctalDigit (c : UInt8) : Bool := chr '0' ≤ c && c ≤ chr '7'

/-- The number a run of digits spells in a base. -/
def baseValue (base : Nat) (digits : Bytes) : Nat :=
  digits.foldl (fun n c => base * n + hexDigitValue c) 0

/-- One part: `0x` and hexadecimal digits, `0` and octal digits, or decimal digits. -/
def atonPart (part : Bytes) : Option Nat :=
  match part with
  | [] => none
  | z :: digits =>
      if z = chr '0' ∧ digits ≠ [] then
        if digits.head? = some (chr 'x') ∨ digits.head? = some (chr 'X') then
          if digits.tail ≠ [] ∧ digits.tail.all isHexDigit then some (baseValue 16 digits.tail)
          else none
        else if digits.all isOctalDigit then some (baseValue 8 digits)
        else none
      else if part.all isDigit then some (baseValue 10 part)
      else none

/-- The address of a list of parts: all but the last are bytes, the last fills what is left. -/
def atonAddress : List Nat → Option Nat
  | [a] => if a < 2 ^ 32 then some a else none
  | [a, b] => if a < 256 ∧ b < 2 ^ 24 then some (a * 2 ^ 24 + b) else none
  | [a, b, c] => if a < 256 ∧ b < 256 ∧ c < 2 ^ 16 then some (a * 2 ^ 24 + b * 2 ^ 16 + c) else none
  | [a, b, c, d] =>
      if a < 256 ∧ b < 256 ∧ c < 256 ∧ d < 256 then
        some (a * 2 ^ 24 + b * 2 ^ 16 + c * 2 ^ 8 + d)
      else none
  | _ => none

/-- The values of all parts. -/
def atonParts : List Bytes → Option (List Nat)
  | [] => some []
  | part :: parts =>
      match atonPart part, atonParts parts with
      | some value, some values => some (value :: values)
      | _, _ => none

/-- **The address a host names**, or none when it is no IPv4 host. -/
def inetAton (host : Bytes) : Option UInt32 :=
  let body := if host.getLast? = some (chr '.') then host.dropLast else host
  (atonParts (body.splitOn (chr '.'))).bind fun parts => (atonAddress parts).map UInt32.ofNat

/-! ## Canonical hosts -/

/-- The canonical text of four octets. -/
def dottedDecimal (a b c d : Nat) : Bytes :=
  decimal a ++ chr '.' :: (decimal b ++ chr '.' :: (decimal c ++ chr '.' :: decimal d))

/-- The address of four octets. -/
def quad (a b c d : Nat) : UInt32 := UInt32.ofNat (a * 2 ^ 24 + b * 2 ^ 16 + c * 2 ^ 8 + d)

/-! ## What the program reads -/

/-- `n` parts of decimal digits, each at most 255, with dots between them; the octets they spell. -/
inductive Dotted : Nat → Bytes → List Nat → Prop where
  | last {p : Bytes} (hne : p ≠ []) (hdig : p.all isDigit = true) (hle : decimalValue p ≤ 255) :
      Dotted 1 p [decimalValue p]
  | cons {n : Nat} {p t : Bytes} {os : List Nat} (hne : p ≠ []) (hdig : p.all isDigit = true)
      (hle : decimalValue p ≤ 255) (ht : Dotted n t os) :
      Dotted (n + 1) (p ++ chr '.' :: t) (decimalValue p :: os)

/-- Bytes at which `strtol` neither skips a blank nor takes a sign, and which end no C string. -/
def isPlainNumeric (c : UInt8) : Bool :=
  !isSpace c && c != chr '-' && c != chr '+' && c != 0

/-- On such text `strtol` reads the leading digits. -/
theorem strtol10_plain {text : Bytes} (h : ∀ c ∈ text, isPlainNumeric c = true) :
    strtol10 text =
      if text.takeWhile isDigit = [] then none
      else some (min (decimalValue (text.takeWhile isDigit) : Int) (2 ^ 63 - 1),
        text.dropWhile isDigit) := by
  cases text with
  | nil => rfl
  | cons c t =>
    have hc := h c List.mem_cons_self
    simp only [isPlainNumeric, Bool.and_eq_true, Bool.not_eq_true', bne_iff_ne, ne_eq] at hc
    obtain ⟨⟨⟨hspace, hminus⟩, hplus⟩, -⟩ := hc
    have hdrop : (c :: t).dropWhile isSpace = c :: t :=
      List.dropWhile_cons_of_neg (by rw [hspace]; exact Bool.false_ne_true)
    have hsign : scanSign (c :: t) = (false, c :: t) := by
      rw [scanSign, if_neg hminus, if_neg hplus]
    simp only [strtol10, hdrop, hsign, Bool.false_eq_true, if_false]

/-- **One octet**: `strtol` returns a value that passes the range check exactly when the text starts
    with digits that spell it. -/
theorem strtol10_octet {text rest : Bytes} {v : Int} (hplain : ∀ c ∈ text, isPlainNumeric c = true) :
    (strtol10 text = some (v, rest) ∧ ¬(v < 0 ∨ 255 < v)) ↔
      ∃ p, text = p ++ rest ∧ p ≠ [] ∧ p.all isDigit = true ∧ decimalValue p ≤ 255 ∧
        v = decimalValue p ∧ ∀ c ∈ rest.head?, isDigit c = false := by
  rw [strtol10_plain hplain]
  constructor
  · rintro ⟨h, hrange⟩
    by_cases hne : text.takeWhile isDigit = []
    · rw [if_pos hne] at h
      exact nomatch h
    · rw [if_neg hne] at h
      obtain ⟨rfl, rfl⟩ := Prod.mk.inj (Option.some.inj h)
      -- a value that `strtol` clamped would be out of range, so it is the spelled one
      refine ⟨text.takeWhile isDigit, List.takeWhile_append_dropWhile.symm, hne, List.all_takeWhile,
        by omega, by omega, fun c hc => ?_⟩
      have := List.head?_dropWhile_not isDigit text
      rw [Option.mem_def.mp hc] at this
      exact this
  · rintro ⟨p, rfl, hne, hdig, hle, rfl, hrest⟩
    have hdigits := List.all_eq_true.mp hdig
    rw [Lib.Separated.takeWhile_stretch hdigits hrest, Lib.Separated.dropWhile_stretch hdigits hrest,
      if_neg hne]
    refine ⟨?_, by omega⟩
    congr 2
    omega

/-- In text without NUL, the end of the string is the end of the text. -/
theorem atNul_plain {text : Bytes} (h : ∀ c ∈ text, isPlainNumeric c = true) :
    atNul text = true ↔ text = [] := by
  cases text with
  | nil => exact ⟨fun _ => rfl, fun _ => rfl⟩
  | cons c t =>
    have hc := h c List.mem_cons_self
    refine ⟨fun hnul => ?_, nofun⟩
    rw [atNul, List.headD_cons, beq_iff_eq] at hnul
    rw [hnul] at hc
    exact absurd hc (by decide)

/-- The last part runs to the end of the string. -/
theorem parseOctets_last {text : Bytes} {os : List Nat} (hplain : ∀ c ∈ text, isPlainNumeric c = true) :
    parseOctets 1 text = some os ↔
      text ≠ [] ∧ text.all isDigit = true ∧ decimalValue text ≤ 255 ∧ os = [decimalValue text] := by
  rw [parseOctets]
  constructor
  · intro h
    split at h
    · exact nomatch h
    · rename_i v rest hv
      split at h
      · exact nomatch h
      · rename_i hrange
        obtain ⟨p, rfl, hne, hdig, hle, rfl, -⟩ := (strtol10_octet hplain).mp ⟨hv, hrange⟩
        rw [if_pos rfl] at h
        split at h
        · rename_i hnul
          obtain rfl := (atNul_plain fun c hc => hplain c (List.mem_append_right p hc)).mp hnul
          rw [List.append_nil]
          exact ⟨hne, hdig, hle, (Option.some.inj h).symm⟩
        · exact nomatch h
  · rintro ⟨hne, hdig, hle, rfl⟩
    obtain ⟨hv, hrange⟩ := (strtol10_octet hplain).mpr
      ⟨text, (List.append_nil text).symm, hne, hdig, hle, rfl, nofun⟩
    simp only [hv, if_neg hrange, if_true]
    rfl

/-- Every earlier part runs to a dot, and the loop goes on behind it. -/
theorem parseOctets_dot {n : Nat} {text : Bytes} {os : List Nat}
    (hplain : ∀ c ∈ text, isPlainNumeric c = true) :
    parseOctets (n + 2) text = some os ↔
      ∃ p t os', text = p ++ chr '.' :: t ∧ p ≠ [] ∧ p.all isDigit = true ∧ decimalValue p ≤ 255 ∧
        parseOctets (n + 1) t = some os' ∧ os = decimalValue p :: os' := by
  rw [parseOctets]
  constructor
  · intro h
    split at h
    · exact nomatch h
    · rename_i v rest hv
      split at h
      · exact nomatch h
      · rename_i hrange
        obtain ⟨p, rfl, hne, hdig, hle, rfl, -⟩ := (strtol10_octet hplain).mp ⟨hv, hrange⟩
        rw [if_neg (Nat.add_one_ne_zero n)] at h
        split at h
        · rename_i c t
          split at h
          · rename_i hc
            obtain ⟨os', hos, rfl⟩ := Option.map_eq_some_iff.mp h
            exact ⟨p, t, os', by rw [hc], hne, hdig, hle, hos, rfl⟩
          · exact nomatch h
        · exact nomatch h
  · rintro ⟨p, t, os', rfl, hne, hdig, hle, hos, rfl⟩
    have hdot : ∀ c ∈ (chr '.' :: t).head?, isDigit c = false := by
      intro c hc
      obtain rfl := Option.some.inj hc
      decide
    obtain ⟨hv, hrange⟩ := (strtol10_octet hplain).mpr ⟨p, rfl, hne, hdig, hle, rfl, hdot⟩
    simp only [hv, if_neg hrange, if_neg (Nat.add_one_ne_zero n), if_true, hos]
    rfl

/-- **What `parse_ipv4` reads**: on plain text, the octets of exactly so many decimal parts. -/
theorem parseOctets_iff :
    ∀ (n : Nat) {text : Bytes} {os : List Nat}, (∀ c ∈ text, isPlainNumeric c = true) →
      (parseOctets (n + 1) text = some os ↔ Dotted (n + 1) text os) := by
  intro n
  induction n with
  | zero =>
    intro text os hplain
    rw [parseOctets_last hplain]
    constructor
    · rintro ⟨hne, hdig, hle, rfl⟩
      exact Dotted.last hne hdig hle
    · intro h
      cases h with
      | last hne hdig hle => exact ⟨hne, hdig, hle, rfl⟩
      | cons hne hdig hle ht => exact nomatch ht
  | succ n ih =>
    intro text os hplain
    have hrest : ∀ {p t : Bytes}, text = p ++ chr '.' :: t → ∀ c ∈ t, isPlainNumeric c = true := by
      rintro p t rfl c hc
      exact hplain c (List.mem_append_right p (List.mem_cons_of_mem _ hc))
    rw [parseOctets_dot hplain]
    constructor
    · rintro ⟨p, t, os', htext, hne, hdig, hle, hos, rfl⟩
      have ht := (ih (hrest htext)).mp hos
      rw [htext]
      exact Dotted.cons hne hdig hle ht
    · intro h
      cases h with
      | cons hne hdig hle ht =>
        exact ⟨_, _, _, rfl, hne, hdig, hle, (ih (hrest rfl)).mpr ht, rfl⟩

/-! ## Hosts -/

/-- **The private hosts the program knows**: at most 31 bytes, four decimal parts, and the first two
    readings in the table of `url.c`. -/
def WrittenPrivate (host : Bytes) : Prop :=
  host.length < 32 ∧ ∃ a b os, Dotted 4 host (a :: b :: os) ∧ urlPrivateRange a b = true

theorem urlHostIsPrivateAddress_iff {host : Bytes} (hplain : ∀ c ∈ host, isPlainNumeric c = true)
    (hlocal : host ≠ str "localhost") :
    urlHostIsPrivateAddress host = true ↔ WrittenPrivate host := by
  unfold urlHostIsPrivateAddress WrittenPrivate parseIpv4
  rw [if_neg hlocal]
  by_cases hlen : 32 ≤ host.length
  · rw [if_pos hlen]
    exact ⟨fun h => absurd h Bool.false_ne_true, fun h => absurd h.1 (Nat.not_lt.mpr hlen)⟩
  · rw [if_neg hlen]
    constructor
    · intro h
      split at h
      · rename_i a b os hos
        exact ⟨Nat.lt_of_not_le hlen, a, b, os, (parseOctets_iff 3 hplain).mp hos, h⟩
      · exact absurd h Bool.false_ne_true
    · rintro ⟨-, a, b, os, hdotted, hrange⟩
      rw [(parseOctets_iff 3 hplain).mpr hdotted]
      exact hrange

/-- The bytes of a host that names an address. -/
def isAtonByte (c : UInt8) : Bool := isHexDigit c || c == chr 'x' || c == chr 'X' || c == chr '.'

theorem isPlainNumeric_of_aton {c : UInt8} (h : isAtonByte c = true) : isPlainNumeric c = true := by
  revert h
  apply byte_forall (p := fun c => isAtonByte c = true → isPlainNumeric c = true)
  decide +kernel

/-- The three digit alphabets lie in it. -/
theorem isAtonByte_of_digit {c : UInt8} :
    (isHexDigit c = true → isAtonByte c = true) ∧ (isOctalDigit c = true → isAtonByte c = true) ∧
      (isDigit c = true → isAtonByte c = true) := by
  have hhex : isHexDigit c = true → isAtonByte c = true := fun h => by
    rw [isAtonByte, h]
    rfl
  have hdigit : isDigit c = true → isAtonByte c = true := fun h => hhex (by
    rw [isHexDigit, h]
    rfl)
  refine ⟨hhex, fun h => hdigit ?_, hdigit⟩
  obtain ⟨hlow, hhigh⟩ := Bool.and_eq_true_iff.mp h
  exact Bool.and_eq_true_iff.mpr
    ⟨hlow, decide_eq_true (UInt8.le_trans (of_decide_eq_true hhigh) (by decide))⟩

theorem atonPart_bytes {part : Bytes} {v : Nat} (h : atonPart part = some v) :
    ∀ c ∈ part, isAtonByte c = true := by
  unfold atonPart at h
  split at h
  · exact nomatch h
  · rename_i z digits
    intro c hc
    split at h
    -- a leading zero and more: hexadecimal after an x, else octal
    · rename_i hz
      rcases List.mem_cons.mp hc with rfl | hc
      · rw [hz.1]; decide
      · split at h
        · rename_i hx
          split at h
          · rename_i hdig
            obtain ⟨x, t, rfl⟩ := List.exists_cons_of_ne_nil hz.2
            rcases List.mem_cons.mp hc with rfl | hc
            · rcases hx with hx | hx <;> (rw [Option.some.inj hx]; decide)
            · exact isAtonByte_of_digit.1 (List.all_eq_true.mp hdig.2 c hc)
          · exact nomatch h
        · split at h
          · rename_i hdig
            exact isAtonByte_of_digit.2.1 (List.all_eq_true.mp hdig c hc)
          · exact nomatch h
    · split at h
      · rename_i hdig
        exact isAtonByte_of_digit.2.2 (List.all_eq_true.mp hdig c hc)
      · exact nomatch h

theorem atonParts_bytes :
    ∀ {parts : List Bytes} {vs : List Nat}, atonParts parts = some vs →
      ∀ part ∈ parts, ∀ c ∈ part, isAtonByte c = true := by
  intro parts
  induction parts with
  | nil => intro vs _ part hp; exact absurd hp List.not_mem_nil
  | cons q parts ih =>
    intro vs h part hp
    rw [atonParts] at h
    split at h
    · rename_i v vs' hv hvs
      rcases List.mem_cons.mp hp with rfl | hp
      · exact atonPart_bytes hv
      · exact ih hvs part hp
    · exact nomatch h

/-- A host that names an address is written in those bytes. -/
theorem inetAton_bytes {host : Bytes} {addr : UInt32} (h : inetAton host = some addr) :
    ∀ c ∈ host, isAtonByte c = true := by
  obtain ⟨parts, hparts, -⟩ := Option.bind_eq_some_iff.mp h
  have hbody : ∀ c ∈ (if host.getLast? = some (chr '.') then host.dropLast else host),
      isAtonByte c = true := by
    intro c hc
    cases hdot : c == chr '.' with
    | true => rw [beq_iff_eq.mp hdot]; decide
    | false =>
      obtain ⟨piece, hpiece, hin⟩ := Lib.Separated.mem_splitOnP_of_mem (p := (· == chr '.')) hc hdot
      rw [← List.splitOn_eq_splitOnP] at hpiece
      exact atonParts_bytes hparts piece hpiece c hin
  intro c hc
  -- the trailing dot, if there is one, is the only byte outside the parts
  by_cases hlast : host.getLast? = some (chr '.')
  · rw [if_pos hlast] at hbody
    rw [← List.dropLast_append_getLast? (chr '.') (Option.mem_def.mpr hlast)] at hc
    rcases List.mem_append.mp hc with hc | hc
    · exact hbody c hc
    · rw [List.mem_singleton.mp hc]; decide
  · rw [if_neg hlast] at hbody
    exact hbody c hc

theorem urlHostIsPrivateAddress_of_inetAton {host : Bytes} {addr : UInt32}
    (h : inetAton host = some addr) :
    urlHostIsPrivateAddress host = true ↔ WrittenPrivate host := by
  have hbytes := inetAton_bytes h
  apply urlHostIsPrivateAddress_iff fun c hc => isPlainNumeric_of_aton (hbytes c hc)
  rintro rfl
  exact absurd (hbytes (chr 'l') (by decide)) (by decide)

/-! ## Canonical hosts -/

/-- A byte's decimal text spells it, in at most three digits. -/
theorem decimal_byte {n : Nat} (h : n ≤ 255) :
    decimal n ≠ [] ∧ (decimal n).all isDigit = true ∧ decimalValue (decimal n) = n ∧
      (decimal n).length ≤ 3 := by
  have hall : ∀ n : Fin 256, decimal n ≠ [] ∧ (decimal n).all isDigit = true ∧
      decimalValue (decimal n) = n ∧ (decimal n).length ≤ 3 := by decide +kernel
  exact hall ⟨n, Nat.lt_succ_of_le h⟩

theorem dotted_dottedDecimal {a b c d : Nat} (ha : a ≤ 255) (hb : b ≤ 255) (hc : c ≤ 255)
    (hd : d ≤ 255) : Dotted 4 (dottedDecimal a b c d) [a, b, c, d] := by
  obtain ⟨ha1, ha2, ha3, -⟩ := decimal_byte ha
  obtain ⟨hb1, hb2, hb3, -⟩ := decimal_byte hb
  obtain ⟨hc1, hc2, hc3, -⟩ := decimal_byte hc
  obtain ⟨hd1, hd2, hd3, -⟩ := decimal_byte hd
  have h := Dotted.cons ha1 ha2 (by rw [ha3]; exact ha) (Dotted.cons hb1 hb2 (by rw [hb3]; exact hb)
    (Dotted.cons hc1 hc2 (by rw [hc3]; exact hc) (Dotted.last hd1 hd2 (by rw [hd3]; exact hd))))
  rwa [ha3, hb3, hc3, hd3] at h

/-- A text of dotted parts is plain. -/
theorem Dotted.plain {n : Nat} {t : Bytes} {os : List Nat} (h : Dotted n t os) :
    ∀ c ∈ t, isPlainNumeric c = true := by
  have hdigit : ∀ {p : Bytes}, p.all isDigit = true → ∀ c ∈ p, isPlainNumeric c = true :=
    fun hp c hc => isPlainNumeric_of_aton
      (isAtonByte_of_digit.2.2 (List.all_eq_true.mp hp c hc))
  induction h with
  | last _ hdig _ => exact hdigit hdig
  | cons _ hdig _ _ ih =>
    intro c hc
    rcases List.mem_append.mp hc with hc | hc
    · exact hdigit hdig c hc
    · rcases List.mem_cons.mp hc with rfl | hc
      · decide
      · exact ih c hc

/-- On a canonical host the program's table decides. -/
theorem urlHostIsPrivateAddress_dottedDecimal {a b c d : Nat} (ha : a ≤ 255) (hb : b ≤ 255)
    (hc : c ≤ 255) (hd : d ≤ 255) :
    urlHostIsPrivateAddress (dottedDecimal a b c d) = urlPrivateRange a b := by
  have hdot := dotted_dottedDecimal ha hb hc hd
  have hlen : (dottedDecimal a b c d).length < 32 := by
    have := (decimal_byte ha).2.2.2
    have := (decimal_byte hb).2.2.2
    have := (decimal_byte hc).2.2.2
    have := (decimal_byte hd).2.2.2
    simp only [dottedDecimal, List.length_append, List.length_cons]
    omega
  have hlocal : dottedDecimal a b c d ≠ str "localhost" := by
    intro h
    have hmem : chr '.' ∈ dottedDecimal a b c d :=
      List.mem_append_right (decimal a) List.mem_cons_self
    rw [h] at hmem
    exact absurd hmem (by decide)
  rw [urlHostIsPrivateAddress, if_neg hlocal, parseIpv4, if_neg (Nat.not_le.mpr hlen),
    (parseOctets_iff 3 hdot.plain).mpr hdot]

theorem inetIsPrivate_quad {a b c d : Nat} (ha : a ≤ 255) (hb : b ≤ 255) (hc : c ≤ 255)
    (hd : d ≤ 255) : inetIsPrivate (quad a b c d) = httpPrivateRange a b := by
  have hnat : (quad a b c d).toNat = a * 2 ^ 24 + b * 2 ^ 16 + c * 2 ^ 8 + d :=
    UInt32.toNat_ofNat_of_lt' (by show _ < 2 ^ 32; omega)
  have h24 : ((quad a b c d >>> 24) &&& 0xFF).toNat = a := by
    rw [UInt32.toNat_and, UInt32.toNat_shiftRight, hnat]
    show (_ >>> 24) &&& (2 ^ 8 - 1) = a
    rw [Nat.and_two_pow_sub_one_eq_mod, Nat.shiftRight_eq_div_pow]
    omega
  have h16 : ((quad a b c d >>> 16) &&& 0xFF).toNat = b := by
    rw [UInt32.toNat_and, UInt32.toNat_shiftRight, hnat]
    show (_ >>> 16) &&& (2 ^ 8 - 1) = b
    rw [Nat.and_two_pow_sub_one_eq_mod, Nat.shiftRight_eq_div_pow]
    omega
  rw [inetIsPrivate, h24, h16]

/-- **The two tables differ in one row**: `192.0.x.x` is private to the connecting side only. -/
theorem ranges_agree_iff (a b : Nat) :
    urlPrivateRange a b = httpPrivateRange a b ↔ ¬(a = 192 ∧ b = 0) := by
  by_cases h : a = 192 ∧ b = 0
  · obtain ⟨rfl, rfl⟩ := h
    decide
  · have hrow : (a == 192 && (b == 0 || b == 168)) = (a == 192 && b == 168) := by
      rw [Bool.eq_iff_iff]
      simp only [Bool.and_eq_true, Bool.or_eq_true, beq_iff_eq]
      omega
    refine ⟨fun _ => h, fun _ => ?_⟩
    rw [urlPrivateRange, httpPrivateRange, hrow]
    ac_rfl

/-! ## URLs -/

/-- A parsed URL passes a policy that restricts nothing but private networks exactly when its scheme
    is one of the two and its host is not recognised as private. -/
theorem checkUrl_block_only (url : Url) :
    checkUrl { urlCredentialsAllowed := true } url = .ok () ↔
      (url.scheme = str "http" ∨ url.scheme = str "https") ∧
        urlHostIsPrivateAddress url.host = false := by
  unfold checkUrl
  by_cases hs : url.scheme ≠ str "http" ∧ url.scheme ≠ str "https"
  · have hno : ¬(url.scheme = str "http" ∨ url.scheme = str "https") := fun h => h.elim hs.1 hs.2
    rw [if_pos hs]
    exact ⟨(fun h => nomatch h), fun h => absurd h.1 hno⟩
  · have hyes : url.scheme = str "http" ∨ url.scheme = str "https" := by tauto
    rw [if_neg hs]
    cases hp : urlHostIsPrivateAddress url.host with
    | true => simp [domainListMatches]
    | false => simp [hyes, domainListMatches]

/-- A blocking policy refuses every URL with a scheme other than the two or a host recognised as
    private. -/
theorem checkUrl_refuses {policy : SecurityPolicy} {url : Url}
    (hblock : policy.privateNetworkPolicy = .block)
    (h : ¬(url.scheme = str "http" ∨ url.scheme = str "https") ∨
      urlHostIsPrivateAddress url.host = true) : checkUrl policy url ≠ .ok () := by
  unfold checkUrl
  rcases h with h | h
  · rw [if_pos (by tauto)]
    exact nofun
  · split
    · exact nofun
    · split
      · exact nofun
      · rw [if_pos (show policy.privateNetworkPolicy = .block ∧ _ from ⟨hblock, h⟩)]
        split
        · exact nofun
        · split <;> exact nofun

/-- **When private IPv4 hosts are recognised.**  A host that names a private address is recognised
    exactly when it is written as four decimal parts in the program's ranges; on canonical hosts the
    two tables agree except on `192.0.x.x`; and a URL with such a host is refused by every blocking
    policy exactly when its scheme is refused anyway or its host is so written. -/
theorem privateHosts_iff (host : Bytes) (addr : UInt32) (a b c d : Nat) (text : Bytes) (url : Url) :
    (inetAton host = some addr → httpSockaddrIsPrivate (.inet addr) = true →
      (urlHostIsPrivateAddress host = true ↔ WrittenPrivate host)) ∧
    (a ≤ 255 → b ≤ 255 → c ≤ 255 → d ≤ 255 →
      (urlHostIsPrivateAddress (dottedDecimal a b c d)
          = httpSockaddrIsPrivate (.inet (quad a b c d)) ↔ ¬(a = 192 ∧ b = 0))) ∧
    (urlParse text = .ok url → inetAton url.host = some addr →
      httpSockaddrIsPrivate (.inet addr) = true →
      ((∀ policy : SecurityPolicy, policy.privateNetworkPolicy = .block →
          validateUrl policy text ≠ .ok ()) ↔
        ¬(url.scheme = str "http" ∨ url.scheme = str "https") ∨ WrittenPrivate url.host)) := by
  refine ⟨fun h _ => urlHostIsPrivateAddress_of_inetAton h, ?_, ?_⟩
  · intro ha hb hc hd
    rw [urlHostIsPrivateAddress_dottedDecimal ha hb hc hd, httpSockaddrIsPrivate,
      inetIsPrivate_quad ha hb hc hd]
    exact ranges_agree_iff a b
  · intro hparse haddr _
    have hne : text ≠ [] := by
      rintro rfl
      exact nomatch hparse
    have hvalidate : ∀ policy, validateUrl policy text = checkUrl policy url := by
      intro policy
      rw [validateUrl, if_neg hne, hparse]
    rw [← urlHostIsPrivateAddress_of_inetAton haddr]
    constructor
    · intro h
      -- the policy that restricts private networks and nothing else
      have hrefused := h { urlCredentialsAllowed := true } rfl
      rw [hvalidate, Ne, checkUrl_block_only, not_and_or, Bool.not_eq_false] at hrefused
      exact hrefused
    · intro h policy hblock
      rw [hvalidate]
      exact checkUrl_refuses hblock h

/-- A private host that is recognised, in all three parts. -/
theorem privateHosts_loopback :
    (urlHostIsPrivateAddress (str "127.0.0.1") = true ↔ WrittenPrivate (str "127.0.0.1")) ∧
    urlHostIsPrivateAddress (dottedDecimal 10 0 0 1)
      = httpSockaddrIsPrivate (.inet (quad 10 0 0 1)) ∧
    ∀ policy : SecurityPolicy, policy.privateNetworkPolicy = .block →
      validateUrl policy (str "http://127.0.0.1/x") ≠ .ok () := by
  obtain ⟨hhost, htables, hurl⟩ := privateHosts_iff (str "127.0.0.1") 0x7F000001 10 0 0 1
    (str "http://127.0.0.1/x")
    { original := str "http://127.0.0.1/x", scheme := str "http", host := str "127.0.0.1",
      path := str "/x", query := [], fragment := [], username := [], password := [], port := 0,
      hasPort := false }
  have hwritten := hhost (by decide) (by decide)
  refine ⟨hwritten, ?_, ?_⟩
  · exact (htables (by decide) (by decide) (by decide) (by decide)).mpr (by decide)
  · exact (hurl rfl (by decide) (by decide)).mpr
      (Or.inr (hwritten.mp (by decide)))

/-- `2130706433` is 127.0.0.1 in one part, and passes as public; so does `192.0.0.1`, which only the
    connecting side calls private. -/
theorem private_spelling_missed :
    (¬ ∀ (host : Bytes) (addr : UInt32), inetAton host = some addr →
      httpSockaddrIsPrivate (.inet addr) = true → urlHostIsPrivateAddress host = true) ∧
    (¬ ∀ a b c d : Nat, a ≤ 255 → b ≤ 255 → c ≤ 255 → d ≤ 255 →
      urlHostIsPrivateAddress (dottedDecimal a b c d)
        = httpSockaddrIsPrivate (.inet (quad a b c d))) ∧
    validateUrl {} (str "http://2130706433/") = .ok () := by
  refine ⟨fun h => ?_, fun h => ?_, rfl⟩
  · exact absurd (h (str "2130706433") 0x7F000001 (by decide) (by decide))
      (by decide)
  · exact absurd (h 192 0 0 1 (by decide) (by decide) (by decide) (by decide)) (by decide)

end SmolClaw.Net
