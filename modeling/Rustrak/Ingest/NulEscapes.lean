import Rustrak.Ingest.Envelope
import Rustrak.Json.Text

/-!
# What is left of a text without its NUL escapes

`strip_nul_escapes` is one pass over bytes that nothing has checked yet.  On a JSON text it cuts
the strings where they say U+0000 and nowhere else: an escape is complete there, so what stands
on its two sides does not join into another.

Where a `\u` is cut off, the digits behind a removed escape can complete it.  The pass does not
come back to it, and the escape it makes may be the one that was to go.
-/

namespace Rustrak.Ingest

open Rustrak.Json

/-! ## Tokens -/

theorem jsonTokens_plain {b : UInt8} {s : List UInt8} (hb : b ≠ backslash) :
    jsonTokens (b :: s) = [b] :: jsonTokens s := by
  rw [jsonTokens, if_pos hb]

theorem jsonTokens_short {b : UInt8} {s : List UInt8} (hb : b ≠ unitMark) :
    jsonTokens (backslash :: b :: s) = [backslash, b] :: jsonTokens s := by
  have hunit : isCodeUnit (b :: s) ≠ true := by
    intro h
    simp only [isCodeUnit, Bool.and_eq_true] at h
    exact hb (Option.some.inj (eq_of_beq h.1.1))
  rw [jsonTokens, if_neg fun h => h rfl, if_neg hunit]
  rfl

theorem jsonTokens_cut {s : List UInt8} (h : isCodeUnit (unitMark :: s) = false) :
    jsonTokens (backslash :: unitMark :: s) = [backslash, unitMark] :: jsonTokens s := by
  rw [jsonTokens, if_neg fun h => h rfl, if_neg (Bool.eq_false_iff.mp h)]
  rfl

/-- Four hexadecimal digits. -/
def FourDigits (digits : List UInt8) : Prop := digits.length = 4 ∧ digits.all isHexDigit = true

theorem isCodeUnit_iff {s : List UInt8} : isCodeUnit (unitMark :: s) = true ↔
    ∃ digits rest, FourDigits digits ∧ s = digits ++ rest := by
  simp only [isCodeUnit, Bool.and_eq_true, decide_eq_true_eq, List.head?_cons, List.length_cons,
    List.drop_succ_cons, List.drop_zero]
  constructor
  · rintro ⟨⟨-, hlength⟩, hdigits⟩
    refine ⟨s.take 4, s.drop 4, ⟨?_, hdigits⟩, (List.take_append_drop 4 s).symm⟩
    rw [List.length_take]
    omega
  · rintro ⟨digits, rest, ⟨hlength, hdigits⟩, rfl⟩
    refine ⟨⟨by decide, by rw [List.length_append]; omega⟩, ?_⟩
    rw [← hlength, List.take_left]
    exact hdigits

theorem jsonTokens_unit {digits s : List UInt8} (h : FourDigits digits) :
    jsonTokens (backslash :: unitMark :: (digits ++ s)) =
      (backslash :: unitMark :: digits) :: jsonTokens s := by
  have hunit : isCodeUnit (unitMark :: (digits ++ s)) = true :=
    isCodeUnit_iff.mpr ⟨digits, s, h, rfl⟩
  rw [jsonTokens, if_neg fun h => h rfl, if_pos hunit]
  have htake : (unitMark :: (digits ++ s)).take 5 = unitMark :: digits := by
    rw [List.take_succ_cons, ← h.1, List.take_left]
  have hdrop : (unitMark :: (digits ++ s)).drop 5 = s := by
    rw [List.drop_succ_cons, ← h.1, List.drop_left]
  rw [htake, hdrop]

theorem isHexDigit_of_hexValue {b : UInt8} {n : Nat} (h : hexValue b = some n) :
    isHexDigit b = true := by
  unfold hexValue at h
  split_ifs at h with hdigit hupper hlower
  · simp [isHexDigit, hdigit]
  · simp [isHexDigit, hupper]
  · simp [isHexDigit, hlower]

theorem fourDigits_of_codeUnit {digits : List UInt8} {n : Nat} (h : CodeUnit digits n) :
    FourDigits digits := by
  cases h with
  | mk ha hb hc hd =>
      refine ⟨rfl, ?_⟩
      simp [isHexDigit_of_hexValue ha, isHexDigit_of_hexValue hb, isHexDigit_of_hexValue hc,
        isHexDigit_of_hexValue hd]

/-! ## Pieces of a text -/

/-- A piece that ends no escape of what follows: what is left of it, and whether an escape was
taken out. -/
structure Strips (s t : List UInt8) (nul : Prop) : Prop where
  closed : ∀ rest, jsonTokens (s ++ rest) = jsonTokens s ++ jsonTokens rest
  strip : withoutNulEscapes s = t
  nul : nulEscape ∈ jsonTokens s ↔ nul

namespace Strips

variable {s t s' t' : List UInt8} {n n' : Prop}

theorem append (h : Strips s t n) (h' : Strips s' t' n') : Strips (s ++ s') (t ++ t') (n ∨ n') where
  closed rest := by
    rw [List.append_assoc, h.closed, h'.closed, h.closed, List.append_assoc]
  strip := by
    rw [← h.strip, ← h'.strip]
    simp only [withoutNulEscapes, h.closed, List.filter_append, List.flatten_append]
  nul := by rw [h.closed, List.mem_append, h.nul, h'.nul]

theorem congr (h : Strips s t n) (hnul : n ↔ n') : Strips s t n' :=
  ⟨h.closed, h.strip, h.nul.trans hnul⟩

theorem nil : Strips [] [] False where
  closed rest := by simp [jsonTokens]
  strip := by simp [withoutNulEscapes, jsonTokens]
  nul := by simp [jsonTokens]

/-- A token is a piece. -/
theorem token {token : List UInt8}
    (h : ∀ rest, jsonTokens (token ++ rest) = token :: jsonTokens rest) :
    Strips token (if token = nulEscape then [] else token) (token = nulEscape) := by
  have hself : jsonTokens token = [token] := by
    have hnil := h []
    rw [List.append_nil] at hnil
    rw [hnil, jsonTokens]
  refine ⟨fun rest => by rw [h, hself]; rfl, ?_, ?_⟩
  · unfold withoutNulEscapes
    rw [hself]
    by_cases htoken : token = nulEscape <;> simp [htoken]
  · rw [hself, List.mem_singleton, eq_comm]

theorem plain (h : backslash ∉ s) : Strips s s False := by
  induction s with
  | nil => exact nil
  | cons b s ih =>
      rw [List.mem_cons, not_or] at h
      have hb := @token [b] fun rest => @jsonTokens_plain b rest (Ne.symm h.1)
      have hne : [b] ≠ nulEscape := by simp [nulEscape]
      rw [if_neg hne] at hb
      exact (hb.append (ih h.2)).congr (by simp [hne])

theorem short {b : UInt8} (hb : b ≠ unitMark) :
    Strips [backslash, b] [backslash, b] False := by
  have htoken := @token [backslash, b] fun rest => @jsonTokens_short b rest hb
  have hne : [backslash, b] ≠ nulEscape := by simp [nulEscape]
  rw [if_neg hne] at htoken
  exact htoken.congr (iff_false_intro hne)

theorem unit {digits : List UInt8} (h : FourDigits digits) :
    Strips (backslash :: unitMark :: digits)
      (if backslash :: unitMark :: digits = nulEscape then [] else backslash :: unitMark :: digits)
      (backslash :: unitMark :: digits = nulEscape) :=
  token fun rest => @jsonTokens_unit digits rest h

end Strips

/-! ## Strings and values -/

/-- The characters of a string but U+0000. -/
def withoutNul (chars : List Char) : List Char := chars.filter (· ≠ '\x00')

/-- Some of these strings has a U+0000 in it. -/
def HasNul (strings : List (List Char)) : Prop := ∃ chars ∈ strings, '\x00' ∈ chars

theorem unit_eq_nulEscape_iff {digits : List UInt8} {n : Nat} (h : CodeUnit digits n) :
    backslash :: unitMark :: digits = nulEscape ↔ n = 0 := by
  rw [← h.eq_zeros_iff]
  constructor
  · intro heq
    exact (List.cons.inj (List.cons.inj heq).2).2
  · rintro rfl
    rfl

theorem char_toNat_eq_zero {c : Char} : c.toNat = 0 ↔ c = '\x00' := by
  constructor
  · intro h
    exact Char.ext (UInt32.toNat.inj h)
  · rintro rfl
    rfl

/-- What is between the quotes is cut where it says U+0000. -/
theorem strips_chars {s : List UInt8} {chars : List Char} (h : Chars s chars) :
    ∃ t, Strips s t ('\x00' ∈ chars) ∧ Chars t (withoutNul chars) := by
  induction h with
  | nil => exact ⟨[], Strips.nil.congr (by simp), .nil⟩
  | @plain c rest chars hspace hquote hescape _ ih =>
      obtain ⟨t, hstrips, hchars⟩ := ih
      have hc : c ≠ '\x00' := by
        rintro rfl
        exact absurd hspace (by decide)
      refine ⟨_, ((Strips.plain (not_mem_utf8EncodeChar hescape)).append hstrips).congr ?_, ?_⟩
      · simp [List.mem_cons, Ne.symm hc]
      · rw [withoutNul, List.filter_cons_of_pos (by simpa using hc)]
        exact .plain hspace hquote hescape hchars
  | @short b c rest chars hb _ ih =>
      obtain ⟨t, hstrips, hchars⟩ := ih
      have hall : ∀ x ∈ shortEscapes, x.1 ≠ unitMark ∧ x.2 ≠ '\x00' := by decide
      obtain ⟨hmark, hc⟩ := hall (b, c) hb
      refine ⟨_, ((Strips.short hmark).append hstrips).congr ?_, ?_⟩
      · simp [List.mem_cons, Ne.symm hc]
      · rw [withoutNul, List.filter_cons_of_pos (by simpa using hc)]
        exact .short hb hchars
  | @unit digits c rest chars hunit _ ih =>
      obtain ⟨t, hstrips, hchars⟩ := ih
      have hnul := (unit_eq_nulEscape_iff hunit).trans char_toNat_eq_zero
      refine ⟨_, ((Strips.unit (fourDigits_of_codeUnit hunit)).append hstrips).congr ?_, ?_⟩
      · rw [hnul, List.mem_cons, eq_comm]
      · by_cases hc : c = '\x00'
        · rw [if_pos (hnul.mpr hc), withoutNul, List.filter_cons_of_neg (by simpa using hc)]
          exact hchars
        · rw [if_neg (mt hnul.mp hc), withoutNul, List.filter_cons_of_pos (by simpa using hc)]
          exact .unit hunit hchars
  | @pair high low i j c rest chars hhigh hi hlow hj hc _ ih =>
      obtain ⟨t, hstrips, hchars⟩ := ih
      -- Neither half of a pair is the escape: its code unit is not zero.
      have hne : ∀ {digits : List UInt8} {n : Nat}, CodeUnit digits n → n ≠ 0 →
          Strips (backslash :: unitMark :: digits) (backslash :: unitMark :: digits) False := by
        intro digits n hunit hn
        have hnul := mt (unit_eq_nulEscape_iff hunit).mp hn
        have hstrips := Strips.unit (fourDigits_of_codeUnit hunit)
        rw [if_neg hnul] at hstrips
        exact hstrips.congr (iff_false_intro hnul)
      have hc' : c ≠ '\x00' := by
        rintro rfl
        have hzero : ('\x00' : Char).toNat = 0 := rfl
        omega
      refine ⟨_, ((hne hhigh (by omega)).append ((hne hlow (by omega)).append hstrips)).congr ?_, ?_⟩
      · simp [List.mem_cons, Ne.symm hc']
      · rw [withoutNul, List.filter_cons_of_pos (by simpa using hc')]
        exact .pair hhigh hi hlow hj hc hchars

theorem strips_string {body : List UInt8} {chars : List Char} (h : Chars body chars) :
    ∃ t, Strips (quoted body) (quoted t) ('\x00' ∈ chars) ∧ Chars t (withoutNul chars) := by
  obtain ⟨t, hstrips, hchars⟩ := strips_chars h
  have hquote : Strips [quote] [quote] False := Strips.plain (by decide)
  exact ⟨t, ((hquote.append hstrips).append hquote).congr (by simp), hchars⟩

/-- A value in brackets. -/
theorem Strips.bracketed {s t : List UInt8} {n : Prop} {opening closing : UInt8}
    (hopening : opening ≠ backslash) (hclosing : closing ≠ backslash) (h : Strips s t n) :
    Strips ([opening] ++ s ++ [closing]) ([opening] ++ t ++ [closing]) n := by
  have hopening : Strips [opening] [opening] False := Strips.plain (by simpa using hopening.symm)
  have hclosing : Strips [closing] [closing] False := Strips.plain (by simpa using hclosing.symm)
  exact ((hopening.append h).append hclosing).congr (by simp)

theorem strips_space {s : List UInt8} (h : Space s) : Strips s s False :=
  Strips.plain h.not_mem_escape

mutual

theorem strips_value {s : List UInt8} {v : Decoded} (h : Value s v) :
    ∃ t, Strips s t (HasNul v.strings) ∧ Value t (v.mapStrings withoutNul) := by
  match h with
  | .null => exact ⟨_, (Strips.plain (by decide)).congr (by simp [HasNul, Decoded.strings]), .null⟩
  | .true => exact ⟨_, (Strips.plain (by decide)).congr (by simp [HasNul, Decoded.strings]), .true⟩
  | .false => exact ⟨_, (Strips.plain (by decide)).congr (by simp [HasNul, Decoded.strings]), .false⟩
  | .number hnumber =>
      exact ⟨_, (Strips.plain hnumber.not_mem_escape).congr (by simp [HasNul, Decoded.strings]),
        .number hnumber⟩
  | .string hchars =>
      obtain ⟨t, hstrips, hchars⟩ := strips_string hchars
      exact ⟨_, hstrips.congr (by simp [HasNul, Decoded.strings]), .string hchars⟩
  | .emptyArray hspace =>
      exact ⟨_, ((strips_space hspace).bracketed (by decide) (by decide)).congr
        (by simp [HasNul, Decoded.strings, Decoded.stringsOfItems]), .emptyArray hspace⟩
  | .array hitems =>
      obtain ⟨t, hstrips, hitems⟩ := strips_items hitems
      exact ⟨_, (hstrips.bracketed (by decide) (by decide)).congr (by
        simp [HasNul, Decoded.strings]), .array hitems⟩
  | .emptyObject hspace =>
      exact ⟨_, ((strips_space hspace).bracketed (by decide) (by decide)).congr
        (by simp [HasNul, Decoded.strings, Decoded.stringsOfMembers]), .emptyObject hspace⟩
  | .object hmembers =>
      obtain ⟨t, hstrips, hmembers⟩ := strips_members hmembers
      exact ⟨_, (hstrips.bracketed (by decide) (by decide)).congr (by
        simp [HasNul, Decoded.strings]), .object hmembers⟩

theorem strips_items {s : List UInt8} {items : List Decoded} (h : Items s items) :
    ∃ t, Strips s t (HasNul (Decoded.stringsOfItems items)) ∧
      Items t (Decoded.mapItems withoutNul items) := by
  match h with
  | .one hbefore hvalue hafter =>
      obtain ⟨t, hstrips, hvalue⟩ := strips_value hvalue
      exact ⟨_, (((strips_space hbefore).append hstrips).append (strips_space hafter)).congr (by
        simp [HasNul, Decoded.stringsOfItems]), .one hbefore hvalue hafter⟩
  | .cons hbefore hvalue hafter hrest =>
      obtain ⟨t, hstrips, hvalue⟩ := strips_value hvalue
      obtain ⟨u, hothers, hrest⟩ := strips_items hrest
      have hcomma : Strips [0x2c] [0x2c] False := Strips.plain (by decide)
      exact ⟨_, ((((strips_space hbefore).append hstrips).append (strips_space hafter)).append
        (hcomma.append hothers)).congr (by
          simp [HasNul, Decoded.stringsOfItems, or_and_right, exists_or]),
        .cons hbefore hvalue hafter hrest⟩

theorem strips_members {s : List UInt8} {members : List (List Char × Decoded)}
    (h : Members s members) :
    ∃ t, Strips s t (HasNul (Decoded.stringsOfMembers members)) ∧
      Members t (Decoded.mapMembers withoutNul members) := by
  have hcolon : Strips [0x3a] [0x3a] False := Strips.plain (by decide)
  match h with
  | .one hbefore hkey hbetween hmiddle hvalue hafter =>
      obtain ⟨k, hkeys, hkey⟩ := strips_string hkey
      obtain ⟨t, hstrips, hvalue⟩ := strips_value hvalue
      exact ⟨_, (((((((strips_space hbefore).append hkeys).append (strips_space hbetween)).append
        hcolon).append (strips_space hmiddle)).append hstrips).append (strips_space hafter)).congr
          (by simp [HasNul, Decoded.stringsOfMembers]),
        .one hbefore hkey hbetween hmiddle hvalue hafter⟩
  | .cons hbefore hkey hbetween hmiddle hvalue hafter hrest =>
      obtain ⟨k, hkeys, hkey⟩ := strips_string hkey
      obtain ⟨t, hstrips, hvalue⟩ := strips_value hvalue
      obtain ⟨u, hothers, hrest⟩ := strips_members hrest
      have hcomma : Strips [0x2c] [0x2c] False := Strips.plain (by decide)
      exact ⟨_, ((((((((strips_space hbefore).append hkeys).append (strips_space hbetween)).append
        hcolon).append (strips_space hmiddle)).append hstrips).append (strips_space hafter)).append
          (hcomma.append hothers)).congr (by
            simp [HasNul, Decoded.stringsOfMembers, or_and_right, exists_or,
              or_assoc]),
        .cons hbefore hkey hbetween hmiddle hvalue hafter hrest⟩

end

theorem strips_text {s : List UInt8} {v : Decoded} (h : Text s v) :
    ∃ t, Strips s t (HasNul v.strings) ∧ Text t (v.mapStrings withoutNul) := by
  cases h with
  | mk hbefore hvalue hafter =>
      obtain ⟨t, hstrips, hvalue⟩ := strips_value hvalue
      exact ⟨_, (((strips_space hbefore).append hstrips).append (strips_space hafter)).congr
        (by simp), .mk hbefore hvalue hafter⟩

/-- From a JSON text the pass takes the U+0000s of its strings and nothing else: what is left is a
text of the same value but for them, and consists of the tokens of the text that are not that
escape. -/
theorem stripNulEscapes_text {json : List UInt8} {v : Decoded} (h : Text json v) :
    Text (stripNulEscapes json) (v.mapStrings withoutNul) ∧ (jsonTokens json).flatten = json ∧
      stripNulEscapes json = ((jsonTokens json).filter (· ≠ nulEscape)).flatten := by
  obtain ⟨t, hstrips, htext⟩ := strips_text h
  rw [stripNulEscapes_eq]
  exact ⟨hstrips.strip ▸ htext, flatten_jsonTokens json, rfl⟩

/-- `["\\u0000\u0000"]`: an escaped backslash, `u0000` and the escape. -/
theorem stripNulEscapes_escaped_backslash :
    let body := [backslash, backslash, 0x75, 0x30, 0x30, 0x30, 0x30]
    let json := [0x5b] ++ quoted (body ++ nulEscape) ++ [0x5d]
    Text (stripNulEscapes json)
        ((Decoded.array [.string ['\\', 'u', '0', '0', '0', '0', '\x00']]).mapStrings withoutNul) ∧
      (jsonTokens json).flatten = json ∧
      stripNulEscapes json = ((jsonTokens json).filter (· ≠ nulEscape)).flatten := by
  intro body json
  have hspace : Space [] := fun b hb => absurd hb List.not_mem_nil
  have hnul : Chars nulEscape ['\x00'] := Chars.unit (c := '\x00') codeUnit_zeros .nil
  have hzeros : Chars ([0x30, 0x30, 0x30, 0x30] ++ nulEscape) ['0', '0', '0', '0', '\x00'] :=
    have hzero : ∀ {rest : List UInt8} {chars : List Char}, Chars rest chars →
        Chars (0x30 :: rest) ('0' :: chars) :=
      Chars.plain (c := '0') (by decide) (by decide) (by decide)
    hzero (hzero (hzero (hzero hnul)))
  have hmark : Chars (0x75 :: ([0x30, 0x30, 0x30, 0x30] ++ nulEscape))
      ['u', '0', '0', '0', '0', '\x00'] :=
    Chars.plain (c := 'u') (by decide) (by decide) (by decide) hzeros
  have hchars : Chars (body ++ nulEscape) ['\\', 'u', '0', '0', '0', '0', '\x00'] :=
    .short (by decide) hmark
  have hitems := Items.one hspace (.string hchars) hspace
  have htext := Text.mk hspace (.array hitems) hspace
  rw [List.nil_append, List.append_nil] at htext
  exact stripNulEscapes_text htext

/-! ## Bytes that are no text -/

/-- Tokens as a text is cut into them: the last may be a backslash with nothing behind it. -/
inductive Good : List (List UInt8) → Prop
  | nil : Good []
  | lone : Good [[backslash]]
  | plain {b : UInt8} {tokens : List (List UInt8)} (hb : b ≠ backslash) (h : Good tokens) :
      Good ([b] :: tokens)
  | short {b : UInt8} {tokens : List (List UInt8)} (hb : b ≠ unitMark) (h : Good tokens) :
      Good ([backslash, b] :: tokens)
  | cut {tokens : List (List UInt8)} (h : Good tokens) : Good ([backslash, unitMark] :: tokens)
  | unit {digits : List UInt8} {tokens : List (List UInt8)} (hdigits : FourDigits digits)
      (h : Good tokens) : Good ((backslash :: unitMark :: digits) :: tokens)

theorem good_jsonTokens (json : List UInt8) : Good (jsonTokens json) := by
  induction json using jsonTokens.induct with
  | case1 => simpa [jsonTokens] using Good.nil
  | case2 b json hb ih =>
      rw [jsonTokens_plain hb]
      exact .plain hb ih
  | case3 b json hb hunit ih =>
      obtain rfl : b = backslash := not_not.mp hb
      cases json with
      | nil => exact absurd hunit (by decide)
      | cons c json =>
          have hc : c = unitMark := by
            simp only [isCodeUnit, Bool.and_eq_true] at hunit
            exact Option.some.inj (eq_of_beq hunit.1.1)
          subst hc
          obtain ⟨digits, rest, hdigits, rfl⟩ := isCodeUnit_iff.mp hunit
          rw [jsonTokens_unit hdigits]
          have hdrop : (unitMark :: (digits ++ rest)).drop 5 = rest := by
            rw [List.drop_succ_cons, ← hdigits.1, List.drop_left]
          rw [hdrop] at ih
          exact .unit hdigits ih
  | case4 b json hb hunit ih =>
      obtain rfl : b = backslash := not_not.mp hb
      -- Two bytes are taken, whatever the second is.
      cases json with
      | nil => simpa [jsonTokens, isCodeUnit] using Good.lone
      | cons c json =>
          by_cases hc : c = unitMark
          · subst hc
            rw [jsonTokens_cut (Bool.eq_false_iff.mpr hunit)]
            exact .cut ih
          · rw [jsonTokens_short hc]
            exact .short hc ih

theorem Good.without {tokens : List (List UInt8)} (h : Good tokens) :
    Good (tokens.filter (· ≠ nulEscape)) := by
  induction h with
  | nil => exact .nil
  | lone => exact .lone
  | plain hb _ ih =>
      rw [List.filter_cons_of_pos (by simp [nulEscape])]
      exact .plain hb ih
  | short hb _ ih =>
      rw [List.filter_cons_of_pos (by simp [nulEscape])]
      exact .short hb ih
  | cut _ ih => exact .cut ih
  | @unit digits tokens hdigits _ ih =>
      by_cases hnul : backslash :: unitMark :: digits = nulEscape
      · rw [List.filter_cons_of_neg (by simpa using hnul)]
        exact ih
      · rw [List.filter_cons_of_pos (by simpa using hnul)]
        exact .unit hdigits ih

/-- A `\u` that is no code unit, with this behind it. -/
def CutOff (behind : List (List UInt8) → Prop) (tokens : List (List UInt8)) : Prop :=
  ∃ after, [backslash, unitMark] :: after <:+ tokens ∧ behind after

theorem cutOff_nil {behind : List (List UInt8) → Prop} : ¬ CutOff behind [] := by
  rintro ⟨after, hsuffix, -⟩
  exact absurd (List.suffix_nil.mp hsuffix) (List.cons_ne_nil _ _)

theorem cutOff_cons {behind : List (List UInt8) → Prop} {token : List UInt8}
    {tokens : List (List UInt8)} : CutOff behind (token :: tokens) ↔
      token = [backslash, unitMark] ∧ behind tokens ∨ CutOff behind tokens := by
  simp only [CutOff, List.suffix_cons_iff, or_and_right, exists_or]
  refine or_congr_left ⟨?_, ?_⟩
  · rintro ⟨after, heq, hbehind⟩
    obtain ⟨rfl, rfl⟩ := List.cons.inj heq
    exact ⟨rfl, hbehind⟩
  · rintro ⟨rfl, hbehind⟩
    exact ⟨tokens, rfl, hbehind⟩

theorem CutOff.congr {behind behind' : List (List UInt8) → Prop} {tokens : List (List UInt8)}
    (h : ∀ after, behind after ↔ behind' after) : CutOff behind tokens ↔ CutOff behind' tokens :=
  exists_congr fun after => and_congr_right fun _ => h after

/-- Without the NUL escapes a `\u` is cut off as before, by what is left behind it. -/
theorem cutOff_without {behind : List (List UInt8) → Prop} {tokens : List (List UInt8)} :
    CutOff behind (tokens.filter (· ≠ nulEscape)) ↔
      CutOff (fun after => behind (after.filter (· ≠ nulEscape))) tokens := by
  induction tokens with
  | nil => exact iff_of_false cutOff_nil cutOff_nil
  | cons token tokens ih =>
      rw [cutOff_cons, ← ih]
      by_cases hnul : token = nulEscape
      · subst hnul
        rw [List.filter_cons_of_neg (by simp)]
        exact (or_iff_right fun h => absurd h.1 (by decide)).symm
      · rw [List.filter_cons_of_pos (by simpa using hnul), cutOff_cons]

def zeros : List (List UInt8) := List.replicate 4 [0x30]

/-- A cut-off escape with four zeros behind it. -/
def Joined : List (List UInt8) → Prop := CutOff (·.take 4 = zeros)

theorem joined_cons {token : List UInt8} {tokens : List (List UInt8)} :
    Joined (token :: tokens) ↔
      token = [backslash, unitMark] ∧ tokens.take 4 = zeros ∨ Joined tokens := cutOff_cons

theorem joined_append_singletons {bytes : List UInt8} {tokens : List (List UInt8)} :
    Joined (bytes.map ([·]) ++ tokens) ↔ Joined tokens := by
  induction bytes with
  | nil => exact Iff.rfl
  | cons b bytes ih =>
      rw [List.map_cons, List.cons_append, joined_cons, ih]
      refine or_iff_right fun h => ?_
      simp at h

/-- Digits at the front of some tokens are tokens of their own. -/
theorem Good.digits {tokens : List (List UInt8)} {digits rest : List UInt8} (h : Good tokens)
    (hdigits : digits.all isHexDigit = true) (heq : tokens.flatten = digits ++ rest) :
    ∃ more, Good more ∧ tokens = digits.map ([·]) ++ more ∧ more.flatten = rest := by
  induction digits generalizing tokens with
  | nil => exact ⟨tokens, h, rfl, heq⟩
  | cons d digits ih =>
      rw [List.all_cons, Bool.and_eq_true] at hdigits
      have hd : d ≠ backslash := by
        rintro rfl
        exact absurd hdigits.1 (by decide)
      cases h with
      | nil => cases heq
      | lone => exact absurd (List.cons.inj heq).1.symm hd
      | @plain b tokens hb h =>
          obtain ⟨rfl, hbehind⟩ := List.cons.inj heq
          obtain ⟨more, hmore, rfl, hrest⟩ := ih h hdigits.2 hbehind
          exact ⟨more, hmore, rfl, hrest⟩
      | short => exact absurd (List.cons.inj heq).1.symm hd
      | cut => exact absurd (List.cons.inj heq).1.symm hd
      | unit => exact absurd (List.cons.inj heq).1.symm hd

theorem singletons_eq_zeros {digits : List UInt8} :
    digits.map ([·]) = zeros ↔ backslash :: unitMark :: digits = nulEscape := by
  constructor
  · intro h
    have hflat := congrArg List.flatten h
    rw [← List.flatMap_def, List.flatMap_singleton'] at hflat
    rw [hflat]
    rfl
  · intro h
    rw [(List.cons.inj (List.cons.inj h).2).2]
    rfl

/-- Cut again, tokens put together hold the escape if they did, or if a cut-off one joins with
what is behind it. -/
theorem Good.nul_mem_iff {tokens : List (List UInt8)} (h : Good tokens) :
    nulEscape ∈ jsonTokens tokens.flatten ↔ nulEscape ∈ tokens ∨ Joined tokens := by
  -- By the number of tokens: an escape that is completed takes the four behind it at once.
  induction hn : tokens.length using Nat.strongRecOn generalizing tokens with
  | ind n ih =>
      subst hn
      -- A token that is cut off as it was.
      have hkept : ∀ {token : List UInt8} {rest : List (List UInt8)}, Good rest →
          rest.length < tokens.length → token ≠ [backslash, unitMark] →
          jsonTokens (token :: rest).flatten = token :: jsonTokens rest.flatten →
          (nulEscape ∈ jsonTokens (token :: rest).flatten ↔
            nulEscape ∈ token :: rest ∨ Joined (token :: rest)) := by
        intro token rest hrest hlength hcut hsplit
        rw [hsplit, List.mem_cons, ih _ hlength hrest rfl, List.mem_cons, joined_cons, or_assoc]
        exact or_congr_right (or_congr_right (or_iff_right fun h => hcut h.1).symm)
      cases h with
      | nil =>
          rw [List.flatten_nil, jsonTokens]
          exact (or_iff_left cutOff_nil).symm
      | lone => exact hkept .nil (by simp) (by decide) (by simp [jsonTokens, isCodeUnit])
      | plain hb h => exact hkept h (by simp) (by simp) (jsonTokens_plain hb)
      | short hb h => exact hkept h (by simp) (by simpa using hb) (jsonTokens_short hb)
      | @unit digits rest hdigits h =>
          refine hkept h (by simp) ?_ (jsonTokens_unit hdigits)
          rintro heq
          have hlength := congrArg List.length heq
          simp [hdigits.1] at hlength
      | @cut rest h =>
          by_cases hunit : isCodeUnit (unitMark :: rest.flatten) = true
          · obtain ⟨digits, behind, hdigits, heq⟩ := isCodeUnit_iff.mp hunit
            obtain ⟨more, hmore, rfl, hrest⟩ := h.digits hdigits.2 heq
            -- The digits behind the `\u` were tokens of their own, and now complete it.
            have hsplit : ([backslash, unitMark] :: (digits.map ([·]) ++ more)).flatten =
                backslash :: unitMark :: (digits ++ more.flatten) := by
              rw [List.flatten_cons, heq, hrest]
              rfl
            have htake : (digits.map ([·]) ++ more).take 4 = digits.map ([·]) := by
              rw [← hdigits.1, ← List.length_map ([·]), List.take_left]
            have hshorter : more.length <
                ([backslash, unitMark] :: (digits.map ([·]) ++ more)).length := by
              rw [List.length_cons, List.length_append]
              omega
            rw [hsplit, jsonTokens_unit hdigits, List.mem_cons, ih _ hshorter hmore rfl,
              joined_cons, joined_append_singletons, htake, singletons_eq_zeros]
            have hmem : nulEscape ∈ [backslash, unitMark] :: (digits.map ([·]) ++ more) ↔
                nulEscape ∈ more := by
              rw [List.mem_cons, List.mem_append, or_iff_right (by decide), or_iff_right]
              simp [nulEscape]
            rw [hmem, eq_comm, and_iff_right rfl]
            exact or_left_comm
          · have hsplit : ([backslash, unitMark] :: rest).flatten =
                backslash :: unitMark :: rest.flatten := rfl
            -- Four zeros would have completed it.
            have hzeros : rest.take 4 ≠ zeros := by
              intro htake
              refine hunit (isCodeUnit_iff.mpr ⟨zeros.flatten, (rest.drop 4).flatten,
                ⟨rfl, by decide⟩, ?_⟩)
              rw [← htake, ← List.flatten_append, List.take_append_drop]
            rw [hsplit, jsonTokens_cut (Bool.eq_false_iff.mpr hunit), List.mem_cons,
              ih _ (by simp) h rfl, List.mem_cons, joined_cons, or_assoc]
            exact or_congr_right (or_congr_right (or_iff_right fun h => hzeros h.2).symm)

/-- Zeros, as many as said, with NUL escapes before and between them. -/
inductive ZerosAhead : Nat → List (List UInt8) → Prop
  | done {tokens : List (List UInt8)} : ZerosAhead 0 tokens
  | zero {n : Nat} {tokens : List (List UInt8)} (h : ZerosAhead n tokens) :
      ZerosAhead (n + 1) ([0x30] :: tokens)
  | nul {n : Nat} {tokens : List (List UInt8)} (h : ZerosAhead n tokens) :
      ZerosAhead n (nulEscape :: tokens)

theorem ZerosAhead.take {n : Nat} {tokens : List (List UInt8)} (h : ZerosAhead n tokens) :
    (tokens.filter (· ≠ nulEscape)).take n = List.replicate n [0x30] := by
  induction h with
  | done => rfl
  | @zero n tokens _ ih =>
      rw [List.filter_cons_of_pos (by decide), List.take_succ_cons, ih, List.replicate_succ]
  | nul _ ih =>
      rw [List.filter_cons_of_neg (by simp)]
      exact ih

theorem zerosAhead_iff {n : Nat} {tokens : List (List UInt8)} :
    ZerosAhead n tokens ↔
      (tokens.filter (· ≠ nulEscape)).take n = List.replicate n [0x30] := by
  refine ⟨ZerosAhead.take, fun h => ?_⟩
  induction tokens generalizing n with
  | nil =>
      cases n with
      | zero => exact .done
      | succ n => cases h
  | cons token tokens ih =>
      cases n with
      | zero => exact .done
      | succ n =>
          by_cases hnul : token = nulEscape
          · subst hnul
            rw [List.filter_cons_of_neg (by simp)] at h
            exact .nul (ih h)
          · rw [List.filter_cons_of_pos (by simpa using hnul), List.take_succ_cons,
              List.replicate_succ] at h
            obtain ⟨rfl, hrest⟩ := List.cons.inj h
            exact .zero (ih hrest)

/-- A `\u` that is no code unit has four zeros behind it once the NUL escapes are gone. -/
def JoinsZeros (json : List UInt8) : Prop := CutOff (ZerosAhead 4) (jsonTokens json)

theorem joined_without_iff {json : List UInt8} :
    Joined ((jsonTokens json).filter (· ≠ nulEscape)) ↔ JoinsZeros json :=
  cutOff_without.trans (CutOff.congr fun _ => zerosAhead_iff.symm)

/-- The pass leaves the escape behind just where it makes one. -/
theorem nul_mem_stripNulEscapes_iff {json : List UInt8} :
    nulEscape ∈ jsonTokens (stripNulEscapes json) ↔ JoinsZeros json := by
  rw [stripNulEscapes_eq, withoutNulEscapes, (good_jsonTokens json).without.nul_mem_iff,
    joined_without_iff]
  refine or_iff_right fun h => ?_
  simp at h

/-- If a text is left, its strings are free of U+0000 just when no `\u` was waiting for the
zeros behind an escape. -/
theorem stripNulEscapes_leaves_no_nul {json : List UInt8} {v : Decoded}
    (h : Text (stripNulEscapes json) v) : ¬ HasNul v.strings ↔ ¬ JoinsZeros json := by
  obtain ⟨t, hstrips, -⟩ := strips_text h
  rw [← hstrips.nul, nul_mem_stripNulEscapes_iff]

/-- What it waits for may make another escape. -/
theorem stripNulEscapes_leaves_letter :
    ¬ HasNul (Decoded.string ['A']).strings ↔
      ¬ JoinsZeros (quoted ([backslash, unitMark] ++ nulEscape ++ [0x30, 0x30, 0x34, 0x31])) := by
  have hstrip : stripNulEscapes
      (quoted ([backslash, unitMark] ++ nulEscape ++ [0x30, 0x30, 0x34, 0x31])) =
        quoted [backslash, unitMark, 0x30, 0x30, 0x34, 0x31] := by
    decide +kernel
  have hunit : CodeUnit [0x30, 0x30, 0x34, 0x31] 'A'.toNat :=
    CodeUnit.mk (i := 0) (j := 0) (k := 4) (l := 1) rfl rfl rfl rfl
  have htext := text_unit hunit
  exact stripNulEscapes_leaves_no_nul (hstrip ▸ htext)

/-- `"\u\u00000000"`: the zeros behind the escape make the one that was to go. -/
theorem stripNulEscapes_joins_zeros :
    ¬ ∀ v, Text (stripNulEscapes
      (quoted ([backslash, unitMark] ++ nulEscape ++ [0x30, 0x30, 0x30, 0x30]))) v →
        ¬ HasNul v.strings := by
  have hstrip : stripNulEscapes
      (quoted ([backslash, unitMark] ++ nulEscape ++ [0x30, 0x30, 0x30, 0x30])) =
        quoted nulEscape := by
    decide +kernel
  have htext : Text (quoted nulEscape) (.string ['\x00']) := text_unit codeUnit_zeros
  intro h
  exact h _ (hstrip ▸ htext) ⟨['\x00'], by simp [Decoded.strings], List.mem_singleton_self _⟩

end Rustrak.Ingest
