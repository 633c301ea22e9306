import Mathlib.Tactic.Common
import ShellTranscript.Proofs.Signal.Framing
import ShellTranscript.Proofs.Text.Hexadecimal

-- Command lines and working directories as a shell writes them. What may not stand in a payload is
-- written in hexadecimal, and a text that was written so is told as it was.
namespace ShellTranscript.Signal

open Text Numeral

namespace Marker

-- The characters of a command line that are written in hexadecimal.
def IsCoded (c : Char) : Prop := c = ';' ∨ c.toNat < 0x20 ∨ c.toNat = 0x7F

instance : DecidablePred IsCoded := fun c =>
  inferInstanceAs (Decidable (c = ';' ∨ c.toNat < 0x20 ∨ c.toNat = 0x7F))

-- A command line and how it is written. The digits may be in either case.
inductive Escapes : Text → Text → Prop
  | nil : Escapes [] []
  | backslash {line raw : Text} : Escapes line raw → Escapes ('\\' :: line) ('\\' :: '\\' :: raw)
  | coded {c high low : Char} {line raw : Text} : IsCoded c →
      hexDigit? high = some (c.toNat / 16) → hexDigit? low = some (c.toNat % 16) →
      Escapes line raw → Escapes (c :: line) ('\\' :: 'x' :: high :: low :: raw)
  | plain {c : Char} {line raw : Text} : c ≠ '\\' → ¬IsCoded c → Escapes line raw →
      Escapes (c :: line) (c :: raw)

theorem exists_hexDigit {n : Nat} (h : n < 16) : ∃ c, hexDigit? c = some n := by
  have hall : ∀ n < 16, hexDigit? (Nat.digitChar n) = some n := by decide
  exact ⟨Nat.digitChar n, hall n h⟩

theorem exists_escapes (line : Text) : ∃ raw, Escapes line raw := by
  induction line with
  | nil => exact ⟨[], .nil⟩
  | cons c line ih =>
    obtain ⟨raw, hraw⟩ := ih
    by_cases hslash : c = '\\'
    · exact ⟨'\\' :: '\\' :: raw, hslash ▸ hraw.backslash⟩
    by_cases hcoded : IsCoded c
    · have hsmall : c.toNat < 0x80 := by
        rcases hcoded with rfl | hcontrol | hdelete
        · decide
        · omega
        · omega
      obtain ⟨high, hhigh⟩ := exists_hexDigit (show c.toNat / 16 < 16 by omega)
      obtain ⟨low, hlow⟩ := exists_hexDigit (show c.toNat % 16 < 16 by omega)
      exact ⟨'\\' :: 'x' :: high :: low :: raw, hraw.coded hcoded hhigh hlow⟩
    · exact ⟨c :: raw, hraw.plain hslash hcoded⟩

theorem unescape_coded {high low : Char} {h l : Nat} (hhigh : hexDigit? high = some h)
    (hlow : hexDigit? low = some l) (raw : Text) :
    unescape ('\\' :: 'x' :: high :: low :: raw) = Char.ofNat (h * 16 + l) :: unescape raw := by
  have hvalue : (UInt8.ofNat (h * 16 + l)).toNat = h * 16 + l := by
    have hh := hexDigit?_lt hhigh
    have hl := hexDigit?_lt hlow
    rw [UInt8.toNat_ofNat', Nat.mod_eq_of_lt (by omega)]
  rw [unescape, hexByte?_pair hhigh hlow]
  simp only [hvalue]

theorem Escapes.unescape {line raw : Text} (h : Escapes line raw) : unescape raw = line := by
  induction h with
  | nil => rfl
  | backslash h ih => rw [Marker.unescape, ih]
  | @coded c high low line raw hcoded hhigh hlow h ih =>
    rw [unescape_coded hhigh hlow, ih, Nat.div_add_mod', Char.ofNat_toNat]
  | plain hne hcoded h ih => rw [unescape_cons_of_ne hne, ih]

theorem graphic_of_hexDigit {c : Char} {n : Nat} (h : hexDigit? c = some n) : Graphic c := by
  obtain ⟨-, hlow, hhigh⟩ := hexDigit?_bounds h
  exact ⟨by omega, by omega⟩

-- Nothing is written that a payload may not hold.
theorem Escapes.mem {line raw : Text} (h : Escapes line raw) :
    ∀ c ∈ raw, 0x20 ≤ c.toNat ∧ c ≠ ';' := by
  have hdigit : ∀ {c : Char} {n : Nat}, hexDigit? c = some n → 0x20 ≤ c.toNat ∧ c ≠ ';' := by
    intro c n hc
    refine ⟨(graphic_of_hexDigit hc).printable.1, ?_⟩
    rintro rfl
    cases hc
  have hsign : ∀ {c : Char} {raw : Text}, 0x20 ≤ c.toNat ∧ c ≠ ';' →
      (∀ c ∈ raw, 0x20 ≤ c.toNat ∧ c ≠ ';') → ∀ d ∈ c :: raw, 0x20 ≤ d.toNat ∧ d ≠ ';' :=
    fun hc hraw => List.forall_mem_cons.mpr ⟨hc, hraw⟩
  induction h with
  | nil => exact List.forall_mem_nil _
  | backslash h ih => exact hsign (by decide) (hsign (by decide) ih)
  | coded hcoded hhigh hlow h ih =>
    exact hsign (by decide) (hsign (by decide) (hsign (hdigit hhigh) (hsign (hdigit hlow) ih)))
  | plain hne hcoded h ih =>
    rw [IsCoded, not_or, not_or] at hcoded
    exact hsign ⟨Nat.le_of_not_lt hcoded.2.1, hcoded.1⟩ ih

theorem Escapes.ofPayload? {line raw : Text} (h : Escapes line raw) :
    ofPayload? ("633;E;".toList ++ raw) = some (.commandLine line) := by
  have hfield : ';' ∉ raw := fun hc => (h.mem _ hc).2 rfl
  have hend : ∀ c, raw.getLast? = some c → c ≠ Char.ofNat 0 := by
    rintro c hc rfl
    exact absurd (h.mem _ (List.mem_of_getLast? hc)).1 (by decide)
  rw [ofPayload?_commandLine hfield hend, h.unescape]

-- The bytes of a path that are written as they are.
def IsUnreserved (b : UInt8) : Prop :=
  (Char.ofNat b.toNat).isAlphanum = true ∨ Char.ofNat b.toNat ∈ "/._~-".toList

instance : DecidablePred IsUnreserved := fun b => inferInstanceAs (Decidable
  ((Char.ofNat b.toNat).isAlphanum = true ∨ Char.ofNat b.toNat ∈ "/._~-".toList))

-- The bytes of a path and how they are written. The digits may be in either case.
inductive Percents : List UInt8 → Text → Prop
  | nil : Percents [] []
  | coded {b : UInt8} {high low : Char} {bytes : List UInt8} {written : Text} : ¬IsUnreserved b →
      hexDigit? high = some (b.toNat / 16) → hexDigit? low = some (b.toNat % 16) →
      Percents bytes written → Percents (b :: bytes) ('%' :: high :: low :: written)
  | plain {b : UInt8} {bytes : List UInt8} {written : Text} : IsUnreserved b →
      Percents bytes written → Percents (b :: bytes) (Char.ofNat b.toNat :: written)

theorem exists_percents (bytes : List UInt8) : ∃ written, Percents bytes written := by
  induction bytes with
  | nil => exact ⟨[], .nil⟩
  | cons b bytes ih =>
    obtain ⟨written, hwritten⟩ := ih
    by_cases hb : IsUnreserved b
    · exact ⟨Char.ofNat b.toNat :: written, hwritten.plain hb⟩
    · have hbyte := b.toNat_lt
      obtain ⟨high, hhigh⟩ := exists_hexDigit (show b.toNat / 16 < 16 by omega)
      obtain ⟨low, hlow⟩ := exists_hexDigit (show b.toNat % 16 < 16 by omega)
      exact ⟨'%' :: high :: low :: written, hwritten.coded hb hhigh hlow⟩

theorem IsUnreserved.graphic {b : UInt8} (h : IsUnreserved b) : Graphic (Char.ofNat b.toNat) := by
  rcases h with halphanum | hother
  · exact graphic_of_isAlphanum halphanum
  · have hall : ∀ c ∈ "/._~-".toList, Graphic c := by decide
    exact hall _ hother

theorem Percents.graphic {bytes : List UInt8} {written : Text} (h : Percents bytes written) :
    ∀ c ∈ written, Graphic c := by
  induction h with
  | nil => exact List.forall_mem_nil _
  | coded hb hhigh hlow h ih =>
    exact List.forall_mem_cons.mpr ⟨by decide, List.forall_mem_cons.mpr ⟨graphic_of_hexDigit hhigh,
      List.forall_mem_cons.mpr ⟨graphic_of_hexDigit hlow, ih⟩⟩⟩
  | plain hb h ih => exact List.forall_mem_cons.mpr ⟨hb.graphic, ih⟩

theorem percentDecode_cons_of_ne {a : UInt8} (ha : a ≠ 0x25) (bytes : List UInt8) :
    percentDecode (a :: bytes) = a :: percentDecode bytes := by
  rcases bytes with _ | ⟨b, _ | ⟨c, bytes⟩⟩
  · rfl
  · rfl
  · rw [percentDecode, if_neg ha]

theorem percentDecode_coded {high low : Char} {h l : Nat} (hhigh : hexDigit? high = some h)
    (hlow : hexDigit? low = some l) (bytes : List UInt8) :
    percentDecode (0x25 :: byteOf high :: byteOf low :: bytes) =
      UInt8.ofNat (h * 16 + l) :: percentDecode bytes := by
  rw [percentDecode, if_pos rfl, (graphic_of_hexDigit hhigh).printable.ofNat_byteOf,
    (graphic_of_hexDigit hlow).printable.ofNat_byteOf, hexByte?_pair hhigh hlow]

theorem Percents.percentDecode {bytes : List UInt8} {written : Text} (h : Percents bytes written) :
    percentDecode (Utf8.encode written) = bytes := by
  induction h with
  | nil => rfl
  | @coded b high low bytes written hb hhigh hlow h ih =>
    have hpercent : Printable '%' := by decide
    have hmark : byteOf '%' = 0x25 := rfl
    rw [hpercent.encode_cons, (graphic_of_hexDigit hhigh).printable.encode_cons,
      (graphic_of_hexDigit hlow).printable.encode_cons, hmark, percentDecode_coded hhigh hlow, ih,
      Nat.div_add_mod', UInt8.ofNat_toNat]
  | @plain b bytes written hb h ih =>
    have hpercent : b ≠ 0x25 := by
      rintro rfl
      exact absurd hb (by decide)
    rw [hb.graphic.printable.encode_cons, byteOf_ofNat, percentDecode_cons_of_ne hpercent, ih]

-- The characters of a host name.
def IsHostChar (c : Char) : Prop := c.isAlphanum = true ∨ c = '.' ∨ c = '-'

instance : DecidablePred IsHostChar := fun c =>
  inferInstanceAs (Decidable (c.isAlphanum = true ∨ c = '.' ∨ c = '-'))

instance (host : Text) : Decidable (∀ c ∈ host, IsHostChar c) :=
  List.decidableBAll IsHostChar host

theorem IsHostChar.graphic {c : Char} (h : IsHostChar c) : Graphic c := by
  rcases h with halphanum | rfl | rfl
  · exact graphic_of_isAlphanum halphanum
  · decide
  · decide

-- What starts with a slash is written with a slash in front.
theorem Percents.head? {bytes : List UInt8} {written : Text} (h : Percents bytes written)
    (hslash : bytes.head? = some 0x2F) : written.head? = some '/' := by
  cases h with
  | nil => cases hslash
  | coded hb hhigh hlow h =>
    obtain rfl := Option.some.inj hslash
    exact absurd (by decide) hb
  | plain hb h =>
    obtain rfl := Option.some.inj hslash
    rfl

section Addresses

variable {host path written : Text}

theorem graphic_address (hhost : ∀ c ∈ host, IsHostChar c)
    (h : Percents (Utf8.encode path) written) :
    ∀ c ∈ "file://".toList ++ (host ++ written), Graphic c := by
  have hfixed : ∀ c ∈ "file://".toList, Graphic c := by decide
  exact List.forall_mem_append.mpr ⟨hfixed,
    List.forall_mem_append.mpr ⟨fun c hc => (hhost c hc).graphic, h.graphic⟩⟩

theorem filePath_written (hhost : ∀ c ∈ host, IsHostChar c) (hpath : path.head? = some '/')
    (h : Percents (Utf8.encode path) written) :
    filePath ("file://".toList ++ (host ++ written)) = path := by
  have haddress : trim ("file://".toList ++ (host ++ written)) = "file://".toList ++ (host ++ written) :=
    trim_eq_self fun c hc => (graphic_address hhost h c hc).isBlank
  have hrest : dropBeginning? "file://".toList ("file://".toList ++ (host ++ written)) =
      some (host ++ written) :=
    dropBeginning?_eq_some_iff.mpr rfl
  have hhead : written.head? = some '/' := by
    obtain ⟨rest, rfl⟩ := List.head?_eq_some_iff.mp hpath
    exact h.head? rfl
  -- Neither is there a slash in the host, nor does the path start with anything else.
  have hslash : (host ++ written).dropWhile (· != '/') = written := by
    obtain ⟨rest, rfl⟩ := List.head?_eq_some_iff.mp hhead
    rw [List.dropWhile_append_of_pos, List.dropWhile_cons_of_neg (by decide)]
    intro c hc
    rw [bne_iff_ne]
    rintro rfl
    exact absurd (hhost _ hc) (by decide)
  have hne : written.isEmpty = false := by
    obtain ⟨rest, rfl⟩ := List.head?_eq_some_iff.mp hhead
    rfl
  simp only [filePath, haddress, hrest, hslash, hne, Bool.false_eq_true, if_false, h.percentDecode,
    Utf8.decodeLossy_encode]

theorem Percents.ofPayload? (h : Percents (Utf8.encode path) written)
    (hhost : ∀ c ∈ host, IsHostChar c) (hpath : path.head? = some '/') :
    ofPayload? ("7;file://".toList ++ (host ++ written)) = some (.workingDirectory path) := by
  have hend : dropEndWhile (· == Char.ofNat 0) ("file://".toList ++ (host ++ written)) =
      "file://".toList ++ (host ++ written) := by
    refine dropEndWhile_eq_self fun c hc => beq_eq_false_iff_ne.mpr ?_
    rintro rfl
    exact absurd (graphic_address hhost h _ (List.mem_of_getLast? hc)).1 (by decide)
  have hpayload := ofPayload?_directory (List.forall_mem_nil _) ("file://".toList ++ (host ++ written))
  rwa [hend, filePath_written hhost hpath h] at hpayload

end Addresses

end Marker

open MarkerDecoder

-- Every command line and every absolute path can be written so that it stands in a payload, and written
-- so it is told as it was, in whatever chunks it arrives.
theorem told_as_written :
    (∀ line : Text, (∃ raw, Marker.Escapes line raw) ∧
      ∀ (raw : Text) (chunks : List (List UInt8)), Marker.Escapes line raw →
        byteLength ("633;E;".toList ++ raw) ≤ capacity →
        chunks.flatten = [0x1B, 0x5D] ++ Utf8.encode ("633;E;".toList ++ raw) ++ [0x07] →
        feedAll .ground chunks = (.ground, [(chunks.flatten.length, .commandLine line)])) ∧
    ∀ path : Text, path.head? = some '/' → (∃ written, Marker.Percents (Utf8.encode path) written) ∧
      ∀ (host written : Text) (chunks : List (List UInt8)), (∀ c ∈ host, Marker.IsHostChar c) →
        Marker.Percents (Utf8.encode path) written →
        byteLength ("7;file://".toList ++ (host ++ written)) ≤ capacity →
        chunks.flatten = [0x1B, 0x5D] ++ Utf8.encode ("7;file://".toList ++ (host ++ written)) ++ [0x07] →
        feedAll .ground chunks = (.ground, [(chunks.flatten.length, .workingDirectory path)]) := by
  constructor
  · intro line
    refine ⟨Marker.exists_escapes line, ?_⟩
    intro raw chunks hraw hroom hchunks
    have hfixed : ∀ c ∈ "633;E;".toList, Printable c := by decide
    have hchars : ∀ c ∈ "633;E;".toList ++ raw, 0x20 ≤ c.toNat :=
      List.forall_mem_append.mpr ⟨fun c hc => (hfixed c hc).1, fun c hc => (hraw.mem c hc).1⟩
    exact feedAll_payload hchars hroom (.inl rfl) hraw.ofPayload? hchunks
  · intro path hpath
    refine ⟨Marker.exists_percents (Utf8.encode path), ?_⟩
    intro host written chunks hhost hwritten hroom hchunks
    have hfixed : ∀ c ∈ "7;".toList, Printable c := by decide
    have hchars : ∀ c ∈ "7;".toList ++ ("file://".toList ++ (host ++ written)), 0x20 ≤ c.toNat :=
      List.forall_mem_append.mpr ⟨fun c hc => (hfixed c hc).1, fun c hc =>
        (Marker.graphic_address hhost hwritten c hc).printable.1⟩
    exact feedAll_payload hchars hroom (.inl rfl) (hwritten.ofPayload? hhost hpath) hchunks

-- A list of two commands, a path in quotes and a line feed, and a directory with a blank and a percent
-- sign in its name, each cut in the middle of an escape.
theorem told_list_and_directory :
    let line := "ls; cd \"\\a\"\n".toList
    let raw := "ls\\x3b cd \"\\\\a\"\\x0A".toList
    let path := "/\u00E4 %41".toList
    let written := "/%C3%a4%20%2541".toList
    let lineBytes := [0x1B, 0x5D] ++ Utf8.encode ("633;E;".toList ++ raw) ++ [0x07]
    let address := "7;file://".toList ++ ("my-host.local".toList ++ written)
    let pathBytes := [0x1B, 0x5D] ++ Utf8.encode address ++ [0x07]
    Marker.Escapes line raw ∧ Marker.Percents (Utf8.encode path) written ∧
      feedAll .ground [lineBytes.take 12, lineBytes.drop 12] =
        (.ground, [(lineBytes.length, .commandLine line)]) ∧
      feedAll .ground [pathBytes.take 30, pathBytes.drop 30] =
        (.ground, [(pathBytes.length, .workingDirectory path)]) := by
  intro line raw path written lineBytes address pathBytes
  have hraw : Marker.Escapes line raw :=
    .plain (by decide) (by decide) <| .plain (by decide) (by decide) <| .coded (by decide) rfl rfl <|
      .plain (by decide) (by decide) <| .plain (by decide) (by decide) <|
      .plain (by decide) (by decide) <| .plain (by decide) (by decide) <|
      .plain (by decide) (by decide) <| .backslash <| .plain (by decide) (by decide) <|
      .plain (by decide) (by decide) <| .coded (by decide) rfl rfl .nil
  have hwritten : Marker.Percents (Utf8.encode path) written := by
    have hbytes : Utf8.encode path = [0x2F, 0xC3, 0xA4, 0x20, 0x25, 0x34, 0x31] := by decide +kernel
    rw [hbytes]
    exact .plain (by decide) <| .coded (by decide) rfl rfl <| .coded (by decide) rfl rfl <|
      .coded (by decide) rfl rfl <| .coded (by decide) rfl rfl <| .plain (by decide) <|
      .plain (by decide) .nil
  have hlineChunks : [lineBytes.take 12, lineBytes.drop 12].flatten = lineBytes := by
    rw [List.flatten_cons, List.flatten_singleton, List.take_append_drop]
  have hpathChunks : [pathBytes.take 30, pathBytes.drop 30].flatten = pathBytes := by
    rw [List.flatten_cons, List.flatten_singleton, List.take_append_drop]
  have hline := (told_as_written.1 line).2 raw _ hraw (by decide) hlineChunks
  have hpath := (told_as_written.2 path rfl).2 "my-host.local".toList written _ (by decide) hwritten
    (by decide) hpathChunks
  rw [hlineChunks] at hline
  rw [hpathChunks] at hpath
  exact ⟨hraw, hwritten, hline, hpath⟩

end ShellTranscript.Signal
