import Mathlib.Tactic.Common
import ShellTranscript.Proofs.Text.Hexadecimal
import ShellTranscript.Proofs.Text.Printable
import ShellTranscript.Signal.Marker

-- What is read for an escape, in command lines and in addresses. By the grammar an escape has two
-- digits, and whatever is no escape stands for itself. As they are read, a plus sign or the end of
-- the text can take the place of a digit, and behind a malformed escape two characters are passed
-- over.
namespace ShellTranscript.Signal.Marker

open Text Numeral

-- A character of a command line: one that stands for itself, or one that an escape stands for.
inductive Piece where
  | kept (c : Char)
  | escaped (c : Char)
deriving DecidableEq, Repr

def Piece.char : Piece → Char
  | kept c => c
  | escaped c => c

-- The pieces of a text by the grammar of escapes.
def pieces : Text → List Piece
  | '\\' :: '\\' :: t => .escaped '\\' :: pieces t
  | '\\' :: 'x' :: a :: b :: t =>
    match hexDigit? a, hexDigit? b with
    | some high, some low => .escaped (Char.ofNat (high * 16 + low)) :: pieces t
    | _, _ => .kept '\\' :: pieces ('x' :: a :: b :: t)
  | c :: t => .kept c :: pieces t
  | [] => []

-- The pieces of a text as they are read.
def reading : Text → List Piece
  | '\\' :: '\\' :: t => .escaped '\\' :: reading t
  | '\\' :: 'x' :: a :: b :: t =>
    match hexByte? [a, b] with
    | some n => .escaped (Char.ofNat n.toNat) :: reading t
    | none => .kept '\\' :: .kept 'x' :: .kept a :: .kept b :: reading t
  | ['\\', 'x', a] =>
    match hexByte? [a] with
    | some n => [.escaped (Char.ofNat n.toNat)]
    | none => [.kept '\\', .kept 'x', .kept a]
  | c :: t => .kept c :: reading t
  | [] => []

-- Whether the grammar reads an escape at the beginning of a text.
def opensEscape : Text → Bool
  | '\\' :: '\\' :: _ => true
  | '\\' :: 'x' :: a :: b :: _ => IsHexDigit a ∧ IsHexDigit b
  | _ => false

-- The texts that are read by the grammar: what is passed over behind a malformed escape begins none, and
-- nothing but a digit is taken for one.
def Regular : Text → Prop
  | '\\' :: '\\' :: t => Regular t
  | '\\' :: 'x' :: a :: b :: t =>
    (IsHexDigit a ∧ IsHexDigit b ∨ ¬(a = '+' ∧ IsHexDigit b) ∧
      opensEscape (a :: b :: t) = false ∧ opensEscape (b :: t) = false) ∧ Regular t
  | ['\\', 'x', a] => ¬IsHexDigit a
  | _ :: t => Regular t
  | [] => True

theorem map_char_reading (t : Text) : (reading t).map Piece.char = unescape t := by
  induction t using reading.induct with
  | case1 t ih => rw [reading, unescape, List.map_cons, ih]; rfl
  | case2 a b t n hn ih =>
    rw [reading, unescape]
    simp only [hn, List.map_cons, ih]
    rfl
  | case3 a b t hn ih =>
    rw [reading, unescape]
    simp only [hn, List.map_cons, ih]
    rfl
  | case4 a n hn =>
    rw [reading, unescape]
    simp only [hn]
    rfl
  | case5 a hn =>
    rw [reading, unescape]
    simp only [hn]
    rfl
  | case6 c t hdouble hcoded hlast ih =>
    rw [reading, unescape, List.map_cons, ih]
    · rfl
    all_goals assumption
  | case7 => rfl

theorem opensEscape_eq_false_iff {a b : Char} {t : Text} :
    opensEscape ('\\' :: 'x' :: a :: b :: t) = false ↔ ¬(IsHexDigit a ∧ IsHexDigit b) :=
  decide_eq_false_iff_not

-- The first piece of a text is its first character, unless an escape stands there.
theorem pieces_of_no_escape {c : Char} {t : Text} (h : opensEscape (c :: t) = false) :
    pieces (c :: t) = .kept c :: pieces t := by
  rw [pieces.eq_def]
  split
  · rename_i rest hcons
    rw [hcons] at h
    cases h
  · rename_i a b rest hcons
    rw [hcons, opensEscape_eq_false_iff] at h
    obtain ⟨rfl, rfl⟩ := List.cons.inj hcons
    split
    · rename_i high low hhigh hlow
      exact absurd ⟨Option.isSome_of_eq_some hhigh, Option.isSome_of_eq_some hlow⟩ h
    · rfl
  · rename_i hcons
    obtain ⟨rfl, rfl⟩ := List.cons.inj hcons
    rfl
  · rename_i hnil
    cases hnil

theorem pieces_of_escape {t : Text} (h : opensEscape t = true) :
    ∃ c rest, pieces t = .escaped c :: rest := by
  unfold opensEscape at h
  split at h
  · exact ⟨_, _, rfl⟩
  · rename_i a b rest
    rw [decide_eq_true_iff] at h
    obtain ⟨high, hhigh⟩ := Option.isSome_iff_exists.mp h.1
    obtain ⟨low, hlow⟩ := Option.isSome_iff_exists.mp h.2
    exact ⟨Char.ofNat (high * 16 + low), pieces rest, by rw [pieces, hhigh, hlow]⟩
  · cases h

theorem kept_cons_eq_pieces_iff {c : Char} {t : Text} {rest : List Piece} :
    .kept c :: rest = pieces (c :: t) ↔ opensEscape (c :: t) = false ∧ rest = pieces t := by
  cases hopens : opensEscape (c :: t) with
  | false => rw [pieces_of_no_escape hopens, List.cons.injEq, and_iff_right rfl, and_iff_right rfl]
  | true =>
    obtain ⟨d, more, hmore⟩ := pieces_of_escape hopens
    simp [hmore]

theorem escaped_cons_ne_pieces {c d : Char} {t : Text} {rest : List Piece}
    (h : opensEscape (c :: t) = false) : .escaped d :: rest ≠ pieces (c :: t) := by
  rw [pieces_of_no_escape h]
  simp

-- By induction along the reading; where it finds an escape the grammar finds one just if both characters
-- are digits, and where it finds none the grammar has to agree on all four characters.
theorem reading_eq_pieces_iff (t : Text) : reading t = pieces t ↔ Regular t := by
  induction t using reading.induct with
  | case1 t ih =>
    rw [reading, pieces, Regular, List.cons.injEq]
    exact (and_iff_right rfl).trans ih
  | case2 a b t n hn ih =>
    have hread : reading ('\\' :: 'x' :: a :: b :: t) = .escaped (Char.ofNat n.toNat) :: reading t := by
      rw [reading, hn]
    rw [hread, Regular]
    rcases hexByte?_pair_iff.mp hn with ⟨rfl, hb⟩ | ⟨high, low, ha, hb, hvalue⟩
    · have hdigit : IsHexDigit b := Option.isSome_of_eq_some hb
      have hopens : opensEscape ('\\' :: 'x' :: '+' :: b :: t) = false :=
        opensEscape_eq_false_iff.mpr fun h => not_isHexDigit_plus h.1
      refine iff_of_false (escaped_cons_ne_pieces hopens) ?_
      simp [hdigit, not_isHexDigit_plus]
    · have hdigits : IsHexDigit a ∧ IsHexDigit b :=
        ⟨Option.isSome_of_eq_some ha, Option.isSome_of_eq_some hb⟩
      have hpieces : pieces ('\\' :: 'x' :: a :: b :: t) =
          .escaped (Char.ofNat (high * 16 + low)) :: pieces t := by
        rw [pieces, ha, hb]
      rw [hpieces, hvalue, List.cons.injEq, and_iff_right rfl, ih, and_iff_right (.inl hdigits)]
  | case3 a b t hn ih =>
    have hread : reading ('\\' :: 'x' :: a :: b :: t) =
        .kept '\\' :: .kept 'x' :: .kept a :: .kept b :: reading t := by
      rw [reading, hn]
    have hbyte : ¬((a = '+' ∨ IsHexDigit a) ∧ IsHexDigit b) := by
      rw [← isSome_hexByte?_pair_iff, hn]
      simp
    have hdigits : ¬(IsHexDigit a ∧ IsHexDigit b) := fun h => hbyte ⟨.inr h.1, h.2⟩
    have hplus : ¬(a = '+' ∧ IsHexDigit b) := fun h => hbyte ⟨.inl h.1, h.2⟩
    have hopens : opensEscape ('\\' :: 'x' :: a :: b :: t) = false :=
      opensEscape_eq_false_iff.mpr hdigits
    have hletter : opensEscape ('x' :: a :: b :: t) = false := rfl
    rw [hread, Regular, kept_cons_eq_pieces_iff, and_iff_right hopens, kept_cons_eq_pieces_iff,
      and_iff_right hletter, kept_cons_eq_pieces_iff, kept_cons_eq_pieces_iff, ih,
      or_iff_right hdigits, and_iff_right hplus, and_assoc]
  | case4 a n hn =>
    have hread : reading ['\\', 'x', a] = [.escaped (Char.ofNat n.toNat)] := by
      rw [reading, hn]
    have hdigit : IsHexDigit a := Option.isSome_of_eq_some (hexByte?_single_iff.mp hn)
    rw [hread, Regular]
    exact iff_of_false (escaped_cons_ne_pieces rfl) (not_not_intro hdigit)
  | case5 a hn =>
    have hread : reading ['\\', 'x', a] = [.kept '\\', .kept 'x', .kept a] := by
      rw [reading, hn]
    have hdigit : ¬IsHexDigit a := by
      rw [← isSome_hexByte?_single_iff, hn]
      simp
    have hlast : opensEscape [a] = false := by
      rw [opensEscape] <;> simp
    rw [hread, Regular, kept_cons_eq_pieces_iff, kept_cons_eq_pieces_iff, kept_cons_eq_pieces_iff]
    exact iff_of_true ⟨rfl, rfl, hlast, rfl⟩ hdigit
  | case6 c t hdouble hcoded hlast ih =>
    rw [reading, pieces, Regular, List.cons.injEq]
    · exact (and_iff_right rfl).trans ih
    all_goals assumption
  | case7 => exact iff_of_true rfl trivial

-- The bytes of an address by the grammar of percent signs.
def octets : List UInt8 → List UInt8
  | a :: b :: c :: bytes =>
    if a = 0x25 then
      match hexDigit? (Char.ofNat b.toNat), hexDigit? (Char.ofNat c.toNat) with
      | some high, some low => UInt8.ofNat (high * 16 + low) :: octets bytes
      | _, _ => a :: octets (b :: c :: bytes)
    else
      a :: octets (b :: c :: bytes)
  | bytes => bytes

-- Somewhere a percent sign and a plus sign stand before a digit.
def HasSigned (bytes : List UInt8) : Prop :=
  ∃ digit : UInt8, IsHexDigit (Char.ofNat digit.toNat) ∧ [0x25, 0x2B, digit] <:+: bytes

section Octets

variable {a b c : UInt8} {bytes : List UInt8}

theorem ofNat_toNat_eq_plus_iff : Char.ofNat b.toNat = '+' ↔ b = 0x2B := by
  constructor
  · intro h
    rw [← byteOf_ofNat b, h]
    rfl
  · rintro rfl
    rfl

theorem octets_of_not_digits
    (h : ¬(IsHexDigit (Char.ofNat b.toNat) ∧ IsHexDigit (Char.ofNat c.toNat))) :
    octets (0x25 :: b :: c :: bytes) = 0x25 :: octets (b :: c :: bytes) := by
  rw [octets, if_pos rfl]
  split
  · rename_i high low hhigh hlow
    exact absurd ⟨Option.isSome_of_eq_some hhigh, Option.isSome_of_eq_some hlow⟩ h
  · rfl

theorem hasSigned_cons : HasSigned (a :: bytes) ↔
    (∃ digit : UInt8, IsHexDigit (Char.ofNat digit.toNat) ∧ a = 0x25 ∧ [0x2B, digit] <+: bytes) ∨
      HasSigned bytes := by
  simp only [HasSigned, List.infix_cons_iff, List.cons_prefix_cons, and_or_left, exists_or, eq_comm]

theorem hasSigned_cons_of_ne (ha : a ≠ 0x25) : HasSigned (a :: bytes) ↔ HasSigned bytes := by
  rw [hasSigned_cons, or_iff_right]
  rintro ⟨digit, -, hpercent, -⟩
  exact ha hpercent

theorem hasSigned_percent : HasSigned (0x25 :: b :: c :: bytes) ↔
    (b = 0x2B ∧ IsHexDigit (Char.ofNat c.toNat)) ∨ HasSigned (b :: c :: bytes) := by
  rw [hasSigned_cons]
  refine or_congr_left ⟨?_, ?_⟩
  · rintro ⟨digit, hdigit, -, hprefix⟩
    rw [List.cons_prefix_cons, List.cons_prefix_cons] at hprefix
    obtain ⟨rfl, rfl, -⟩ := hprefix
    exact ⟨rfl, hdigit⟩
  · rintro ⟨rfl, hdigit⟩
    exact ⟨c, hdigit, rfl, bytes, rfl⟩

theorem not_hasSigned_of_short (h : bytes.length < 3) : ¬HasSigned bytes := by
  rintro ⟨digit, -, hinfix⟩
  have hlength := hinfix.length_le
  simp only [List.length_cons, List.length_nil] at hlength
  omega

-- A sign before a digit is the only thing that is taken for digits and is none.
theorem percentDecode_eq_octets_iff (bytes : List UInt8) :
    percentDecode bytes = octets bytes ↔ ¬HasSigned bytes := by
  induction bytes using percentDecode.induct with
  | case1 b c bytes n hn ih =>
    have hdecoded : percentDecode (0x25 :: b :: c :: bytes) = n :: percentDecode bytes := by
      rw [percentDecode, if_pos rfl, hn]
    rw [hdecoded]
    rcases hexByte?_pair_iff.mp hn with ⟨hplus, hc⟩ | ⟨high, low, hb, hc, hvalue⟩
    · have hdigit : IsHexDigit (Char.ofNat c.toNat) := Option.isSome_of_eq_some hc
      have hsmall := hexDigit?_lt hc
      obtain rfl := ofNat_toNat_eq_plus_iff.mp hplus
      -- One digit is too little for a percent sign, which the grammar reads here.
      have hpercent : n ≠ 0x25 := by
        rintro rfl
        exact absurd hsmall (by decide)
      have hsign : ¬(IsHexDigit (Char.ofNat (0x2B : UInt8).toNat) ∧ IsHexDigit (Char.ofNat c.toNat)) :=
        fun h => not_isHexDigit_plus h.1
      rw [octets_of_not_digits hsign, hasSigned_percent]
      exact iff_of_false (fun h => hpercent (List.cons.inj h).1)
        (not_not_intro (.inl ⟨rfl, hdigit⟩))
    · have hoctets : octets (0x25 :: b :: c :: bytes) =
          UInt8.ofNat (high * 16 + low) :: octets bytes := by
        rw [octets, if_pos rfl, hb, hc]
      have hplus : b ≠ 0x2B := by
        rintro rfl
        cases hb
      -- Neither digit begins a triple of its own.
      have hpercent : b ≠ 0x25 ∧ c ≠ 0x25 := by
        constructor
        · rintro rfl
          cases hb
        · rintro rfl
          cases hc
      rw [hoctets, ← hvalue, UInt8.ofNat_toNat, List.cons.injEq, and_iff_right rfl, ih,
        hasSigned_percent, or_iff_right fun h => hplus h.1, hasSigned_cons_of_ne hpercent.1,
        hasSigned_cons_of_ne hpercent.2]
  | case2 b c bytes hn ih =>
    have hdecoded : percentDecode (0x25 :: b :: c :: bytes) = 0x25 :: percentDecode (b :: c :: bytes) := by
      rw [percentDecode, if_pos rfl, hn]
    have hbyte : ¬((Char.ofNat b.toNat = '+' ∨ IsHexDigit (Char.ofNat b.toNat)) ∧
        IsHexDigit (Char.ofNat c.toNat)) := by
      rw [← isSome_hexByte?_pair_iff, hn]
      simp
    have hplus : ¬(b = 0x2B ∧ IsHexDigit (Char.ofNat c.toNat)) := fun h =>
      hbyte ⟨.inl (ofNat_toNat_eq_plus_iff.mpr h.1), h.2⟩
    rw [hdecoded, octets_of_not_digits fun h => hbyte ⟨.inr h.1, h.2⟩, List.cons.injEq,
      and_iff_right rfl, ih, hasSigned_percent, or_iff_right hplus]
  | case3 a b c bytes ha ih =>
    rw [percentDecode, octets, if_neg ha, if_neg ha, hasSigned_cons_of_ne ha, List.cons.injEq,
      and_iff_right rfl, ih]
  | case4 bytes hshort =>
    have hlength : bytes.length < 3 := by
      rcases bytes with _ | ⟨a, _ | ⟨b, _ | ⟨c, rest⟩⟩⟩
      · decide
      · simp
      · simp
      · exact (hshort a b c rest rfl).elim
    rw [percentDecode, octets]
    · exact iff_of_true rfl (not_hasSigned_of_short hlength)
    all_goals exact hshort

end Octets

-- The pieces that are read are those of the grammar just if the text is regular, and the bytes of an
-- address just if no sign stands for a digit in it.
theorem keeps_malformed_iff (t : Text) (bytes : List UInt8) :
    ((reading t).map Piece.char = unescape t ∧ (reading t = pieces t ↔ Regular t)) ∧
      (percentDecode bytes = octets bytes ↔ ¬HasSigned bytes) :=
  ⟨⟨map_char_reading t, reading_eq_pieces_iff t⟩, percentDecode_eq_octets_iff bytes⟩

-- A plus sign is taken for a digit, one digit at the end for two, and the first half of an escaped
-- backslash for what no escape is read from.
theorem misreads_malformed :
    (pieces "\\x+f".toList = "\\x+f".toList.map .kept ∧ unescape "\\x+f".toList = [Char.ofNat 0x0F]) ∧
    (pieces "\\x4".toList = "\\x4".toList.map .kept ∧ unescape "\\x4".toList = [Char.ofNat 0x04]) ∧
    (pieces "\\xa\\\\x41".toList =
        [.kept '\\', .kept 'x', .kept 'a', .escaped '\\', .kept 'x', .kept '4', .kept '1'] ∧
      unescape "\\xa\\\\x41".toList = "\\xa\\A".toList) ∧
    octets [0x25, 0x2B, 0x66] = [0x25, 0x2B, 0x66] ∧ percentDecode [0x25, 0x2B, 0x66] = [0x0F] := by
  decide

end ShellTranscript.Signal.Marker
