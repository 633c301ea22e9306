import ShellTranscript.Proofs.Screen.Lacking
import ShellTranscript.Proofs.Screen.Printed
import ShellTranscript.Proofs.Session.Alike

-- What a reset forgets. It blanks the grid in use and drops its history, whatever was read before. It
-- does not reach the main grid behind the alternate one, it is held back by an update that is held,
-- and it leaves the cursor's character sets as they are.
namespace ShellTranscript

open Text

namespace Screen

section Erasing

variable {x : Char} {t : Text} {s : Screen} {height : Nat}

theorem lacks_erased (hx : 0x20 < x.toNat) (h : s.Sized height) (hpos : 0 < height) :
    s.erased.grid.Lacks x := by
  have hmoved := (stable_sized hpos).moveTo 0 0 h
  have hcount := hmoved.count.trans hmoved.lines.symm
  have hrows : ((s.moveTo 0 0).eraseScreen .whole).grid.rows =
      List.replicate (s.moveTo 0 0).grid.lines (s.moveTo 0 0).grid.blankRow ∧
      ((s.moveTo 0 0).eraseScreen .whole).grid.blankRow = (s.moveTo 0 0).grid.blankRow := by
    show (if s.isAlternate then (s.moveTo 0 0).grid.resetAll
      else (s.moveTo 0 0).grid.clearViewport).rows = _ ∧
      (if s.isAlternate then (s.moveTo 0 0).grid.resetAll
        else (s.moveTo 0 0).grid.clearViewport).blankRow = _
    split
    · exact ⟨Grid.rows_resetAll hcount, rfl⟩
    · exact ⟨rows_clearViewport hcount (hmoved.lines.symm ▸ hpos), rfl⟩
  exact Grid.lacks_of_blankRows hx (hrows.1.trans (congrArg (List.replicate _) hrows.2.symm)) rfl

-- The rest of the screen stays: the other grid, which of the two it is, and the character sets.
theorem erased_rest (s : Screen) : s.erased.other = s.other ∧ s.erased.isAlternate = s.isAlternate ∧
    s.erased.grid.cursor.charsets = s.grid.cursor.charsets := by
  refine ⟨rfl, rfl, ?_⟩
  show (if s.isAlternate then (s.moveTo 0 0).grid.resetAll
    else (s.moveTo 0 0).grid.clearViewport).cursor.charsets = _
  split
  · rfl
  · rfl

-- The main grid is kept out of while it may come back.
structure Shuts (x : Char) (t : Text) (returns : Prop) (s : Screen) : Prop where
  grid : s.grid.KeepsOut x t
  main : s.isAlternate → returns → s.other.KeepsOut x t

theorem Shuts.writes {returns : Prop} {s' : Screen} (h : s.Shuts x t returns)
    (hwrites : s.Writes x t s') : s'.Shuts x t returns :=
  ⟨hwrites.keepsOut h.grid, fun halternate hreturns =>
    hwrites.other ▸ h.main (hwrites.mode ▸ halternate) hreturns⟩

-- The alternate grid comes in blank and with the cursor of the main one.
theorem Shuts.setAlternate (hx : 0x20 < x.toNat) {returns returns' : Prop}
    (h : s.Shuts x t returns) (hsized : s.Sized height) (on : Bool) (hreturns : returns' → returns)
    (hoff : on = false → returns) : (s.setAlternate on).Shuts x t returns' := by
  unfold Screen.setAlternate
  split
  · exact ⟨h.grid, fun halternate h' => h.main halternate (hreturns h')⟩
  · rename_i hne
    cases on with
    | true =>
      have hmain : s.isAlternate = false := Bool.eq_false_iff.mpr hne
      have hcount := hsized.otherCount.trans hsized.otherLines.symm
      have hhistory : s.other.history = [] := by
        have h := hsized.history
        rwa [alternateGrid, hmain, if_neg (by simp)] at h
      have hblank : ({ s.other with cursor := s.grid.cursor } : Grid).resetAll.Lacks x :=
        Grid.lacks_of_blankRows hx (Grid.rows_resetAll hcount) hhistory
      rw [swapGrids, hmain, if_neg (by simp)]
      exact ⟨h.grid.of_lacks hblank rfl, fun _ _ =>
        h.grid.of_lacks ⟨h.grid.lacks.history, h.grid.lacks.rows⟩ rfl⟩
    | false =>
      have halternate : s.isAlternate = true := Bool.of_not_eq_false hne
      have hmode : s.modes.alternateScreen = true := halternate
      rw [swapGrids, halternate, if_pos rfl]
      refine ⟨h.main halternate (hoff rfl), fun hnot => ?_⟩
      rw [isAlternate, hmode] at hnot
      cases hnot

end Erasing

end Screen

namespace Emulator

variable {e : Emulator} {x : Char} {t : Text} {height : Nat}

theorem types_itemOfDecoded {decoded : List Utf8.Decoded}
    (h : ∀ c ∈ decoded.map Utf8.Decoded.toChar, c ∈ t) :
    ∀ item ∈ decoded.map ControlState.itemOfDecoded, Screen.Types t item := by
  intro item hitem
  obtain ⟨d, hd, rfl⟩ := List.mem_map.mp hitem
  rcases itemOfDecoded_cases d with hcode | hprint
  · exact .inl hcode
  · exact .inr ⟨d.toChar, h _ (List.mem_map_of_mem hd), hprint⟩

-- Without an ESC the bytes are only decoded.
theorem itemsOf_ground (pending : Utf8.State) {bytes : List UInt8} (h : 0x1B ∉ bytes) :
    itemsOf (.ground pending) bytes = (.ground (Utf8.run pending bytes).1,
      (Utf8.run pending bytes).2.map ControlState.itemOfDecoded) := by
  induction bytes generalizing pending with
  | nil => rfl
  | cons b bytes ih =>
    have hb : b ≠ 0x1B := fun heq => h (heq ▸ List.mem_cons_self)
    have hrest := ih (Utf8.step pending b).1 fun hmem => h (List.mem_cons_of_mem _ hmem)
    simp only [itemsOf, ControlState.step, ControlState.stepGround, if_neg hb, hrest, Utf8.run,
      List.map_append]

theorem feed_plain {pending : Utf8.State} (hcontrol : e.control = .ground pending)
    (hheld : e.held = none) {bytes : List UInt8} (h : 0x1B ∉ bytes) :
    e.feed bytes = { e with
      control := .ground (Utf8.run pending bytes).1
      screen := ((Utf8.run pending bytes).2.map ControlState.itemOfDecoded).foldl Screen.apply
        e.screen } := by
  have hitems := itemsOf_ground pending h
  rw [← hcontrol] at hitems
  rw [feed_of_items hheld (by rw [hitems]; exact startsHold_itemOfDecoded _), hitems]

theorem types_brokenOff (control : ControlState) :
    ∃ t, ∀ item ∈ brokenOff control, Screen.Types t item := by
  cases control with
  | ground pending => exact ⟨_, types_itemOfDecoded fun c hc => hc⟩
  | _ => exact ⟨[], fun item hitem => by cases hitem⟩

-- The bytes that switch to the alternate screen, or back.
def switchSequence (on : Bool) : List UInt8 :=
  [0x1B, 0x5B, 0x3F, 0x31, 0x30, 0x34, 0x39, if on then 0x68 else 0x6C]

theorem feed_switch (hheld : e.held = none) (on : Bool) :
    e.feed (switchSequence on) = { e with
      control := .start
      screen := ((brokenOff e.control).foldl Screen.apply e.screen).setAlternate on } := by
  cases on with
  | true =>
    have hitems : itemsOf .escape (switchSequence true).tail =
        (.start, [.sequence [[1049]] [0x3F] 0x68]) := by decide +kernel
    exact feed_escape hheld hitems rfl
  | false =>
    have hitems : itemsOf .escape (switchSequence false).tail =
        (.start, [.sequence [[1049]] [0x3F] 0x6C]) := by decide +kernel
    exact feed_escape hheld hitems rfl

-- Text, and after each switch of the screen more text.
structure PlainOutput where
  first : List UInt8
  rest : List (Bool × List UInt8)
  plain : ∀ run ∈ first :: rest.map Prod.snd, 0x1B ∉ run

namespace PlainOutput

def bytes (w : PlainOutput) : List UInt8 :=
  w.first ++ w.rest.flatMap fun (on, run) => switchSequence on ++ run

def text (w : PlainOutput) : Text := (w.first :: w.rest.map Prod.snd).flatMap Utf8.decodeLossy

-- Some switch goes back to the main screen.
def Returns (w : PlainOutput) : Prop := ∃ part ∈ w.rest, part.1 = false

end PlainOutput

-- Ready for text of which nothing brings the character up: none that is decoded, and no replacement
-- for what is unfinished.
structure Shut (x : Char) (t : Text) (height : Nat) (returns : Prop) (e : Emulator) : Prop where
  held : e.held = none
  sized : e.screen.Sized height
  shuts : e.screen.Shuts x t returns
  ground : ∃ pending, e.control = .ground pending ∧
    ∀ c ∈ (Utf8.finish pending).map Utf8.Decoded.toChar, c ∈ t

theorem Shut.feed_plain (hx : 0x20 < x.toNat) (hpos : 0 < height) {returns : Prop}
    (h : e.Shut x t height returns) (hcontrol : e.control = .start) {run : List UInt8}
    (hplain : 0x1B ∉ run) (ht : ∀ c ∈ Utf8.decodeLossy run, c ∈ t) :
    (e.feed run).Shut x t height returns := by
  have hsplit : Utf8.decodeLossy run = (Utf8.run .start run).2.map Utf8.Decoded.toChar ++
      (Utf8.finish (Utf8.run .start run).1).map Utf8.Decoded.toChar := List.map_append
  have hdecoded : ∀ c ∈ (Utf8.run .start run).2.map Utf8.Decoded.toChar, c ∈ t := fun c hc =>
    ht c (hsplit ▸ List.mem_append_left _ hc)
  have hpending : ∀ c ∈ (Utf8.finish (Utf8.run .start run).1).map Utf8.Decoded.toChar, c ∈ t :=
    fun c hc => ht c (hsplit ▸ List.mem_append_right _ hc)
  rw [Emulator.feed_plain hcontrol h.held hplain]
  exact ⟨h.held, (Screen.stable_sized hpos).items _ h.sized,
    h.shuts.writes (Screen.writes_items hx _ (types_itemOfDecoded hdecoded)), _, rfl, hpending⟩

theorem Shut.feed_switch (hx : 0x20 < x.toNat) (hpos : 0 < height) {returns returns' : Prop}
    (h : e.Shut x t height returns) (on : Bool) (hreturns : returns' → returns)
    (hoff : on = false → returns) : (e.feed (switchSequence on)).Shut x t height returns' ∧
      (e.feed (switchSequence on)).control = .start := by
  obtain ⟨pending, hcontrol, hpending⟩ := h.ground
  have hbroken : brokenOff e.control = (Utf8.finish pending).map ControlState.itemOfDecoded := by
    rw [hcontrol]
    rfl
  have hstable := Screen.stable_sized hpos
  have hsized := hstable.items (brokenOff e.control) h.sized
  have hshuts := h.shuts.writes (Screen.writes_items hx e.screen (types_itemOfDecoded hpending))
  rw [← hbroken] at hshuts
  rw [Emulator.feed_switch h.held]
  refine ⟨⟨h.held, hstable.setAlternate on hsized,
    hshuts.setAlternate hx hsized on hreturns hoff, ?_⟩, rfl⟩
  exact ⟨.start, rfl, fun c hc => by cases hc⟩

-- Only what the erasure does not reach is left to ask for.
theorem shut_of_reset (hx : 0x20 < x.toNat) (hpos : 0 < height) {returns : Prop}
    (hheld : e.held = none) (hsized : e.screen.Sized height)
    (hdrawn : ∀ c ∈ t, c ≠ x ∧ ∀ slot, (e.screen.grid.cursor.charsets.get slot).map c ≠ x)
    (hmain : e.screen.isAlternate → returns → e.screen.other.KeepsOut x t) :
    (e.feed Terminal.resetSequence).Shut x t height returns ∧
      (e.feed Terminal.resetSequence).control = .start := by
  obtain ⟨_, htypes⟩ := types_brokenOff e.control
  have hwrites := Screen.writes_items hx e.screen htypes
  have hstable := Screen.stable_sized hpos
  have hbroken := hstable.items (brokenOff e.control) hsized
  rw [feed_reset_of_any hheld]
  generalize (brokenOff e.control).foldl Screen.apply e.screen = s at hwrites hbroken ⊢
  obtain ⟨hother, hmode, hsets⟩ := s.erased_rest
  have herased : s.erased.Sized height :=
    hstable.eraseScreen .history (hstable.eraseScreen .whole (hstable.moveTo 0 0 hbroken))
  refine ⟨⟨hheld, herased, ⟨⟨Screen.lacks_erased hx hbroken hpos, ?_⟩, ?_⟩, ?_⟩, rfl⟩
  · intro c hc
    rw [hsets, hwrites.sets]
    exact hdrawn c hc
  · intro halternate hreturns
    rw [hother, hwrites.other]
    rw [hmode, hwrites.mode] at halternate
    exact hmain halternate hreturns
  · exact ⟨.start, rfl, fun c hc => by cases hc⟩

theorem Shut.feed_rest (hx : 0x20 < x.toNat) (hpos : 0 < height)
    {rest : List (Bool × List UInt8)}
    (h : e.Shut x t height (∃ part ∈ rest, part.1 = false))
    (hplain : ∀ run ∈ rest.map Prod.snd, 0x1B ∉ run)
    (ht : ∀ c ∈ (rest.map Prod.snd).flatMap Utf8.decodeLossy, c ∈ t) :
    (e.feed (rest.flatMap fun (on, run) => switchSequence on ++ run)).screen.grid.Lacks x := by
  induction rest generalizing e with
  | nil => exact h.shuts.grid.lacks
  | cons part rest ih =>
    obtain ⟨on, run⟩ := part
    have hlater : (∃ part ∈ rest, part.1 = false) → ∃ part ∈ (on, run) :: rest, part.1 = false :=
      fun ⟨part, hpart, hoff⟩ => ⟨part, List.mem_cons_of_mem _ hpart, hoff⟩
    obtain ⟨hswitched, hcontrol⟩ := h.feed_switch hx hpos on hlater
      fun hoff => ⟨_, List.mem_cons_self, hoff⟩
    have hwritten := hswitched.feed_plain hx hpos hcontrol (hplain run List.mem_cons_self)
      fun c hc => ht c (List.mem_append_left _ hc)
    have hrest := ih hwritten (fun r hr => hplain r (List.mem_cons_of_mem _ hr))
      fun c hc => ht c (List.mem_append_right _ hc)
    rw [List.flatMap_cons, feed_append, feed_append]
    exact hrest

end Emulator

namespace Terminal

variable {x : Char}

-- After a reset the character is not shown, unless it is written again. It stays away whatever was
-- read before, as long as the update is not held, no character of what is written is drawn as it,
-- and, with a return from the alternate screen to come, it does not stand on the main one.
theorem clearAll_forgets (columns rows limit : Nat) (u : List UInt8) (hx : 0x20 < x.toNat)
    (w : Emulator.PlainOutput) (hw : x ∉ w.text)
    (hheld : ((new (.new columns rows) limit).write u).emulator.held = none)
    (hdrawn : ∀ c ∈ w.text, ∀ slot, (((new (.new columns rows) limit).write
      u).screen.grid.cursor.charsets.get slot).map c ≠ x)
    (hmain : ((new (.new columns rows) limit).write u).isAlternate → w.Returns →
      ((new (.new columns rows) limit).write u).screen.other.KeepsOut x w.text) :
    x ∉ ((((new (.new columns rows) limit).write u).clearAll).write w.bytes).snapshot.text := by
  have hpos : 0 < (ScreenSize.new columns rows).rows := Nat.lt_of_lt_of_le Nat.zero_lt_one
    (Nat.le_max_right rows 1)
  have hsized : ((new (.new columns rows) limit).write u).emulator.screen.Sized
      (ScreenSize.new columns rows).rows := by
    rw [write_emulator]
    exact (Screen.stable_sized hpos).feed u (Screen.sized_new _ _ limit)
  generalize (new (.new columns rows) limit).write u = t at *
  obtain ⟨hreset, hcontrol⟩ := Emulator.shut_of_reset hx hpos hheld hsized
    (fun c hc => ⟨fun heq => hw (heq ▸ hc), hdrawn c hc⟩) hmain
  have hfirst := hreset.feed_plain hx hpos hcontrol (w.plain _ List.mem_cons_self)
    fun c hc => List.mem_append_left _ hc
  have hrest := hfirst.feed_rest hx hpos (fun run hrun => w.plain run (List.mem_cons_of_mem _ hrun))
    fun c hc => List.mem_append_right _ hc
  have hlacks : ((t.clearAll).write w.bytes).emulator.screen.grid.Lacks x := by
    rw [write_emulator, Emulator.PlainOutput.bytes, Emulator.feed_append]
    exact hrest
  exact Screen.not_mem_plainText hx hlacks

-- On the alternate screen, with another character on the main one and a return to it.
theorem clearAll_forgets_alternate :
    'x' ∉ ((((new (.new 10 4) 10).write (0x61 :: Emulator.switchSequence true ++ [0x78])).clearAll).write
      (0x62 :: Emulator.switchSequence false ++ [0x63])).snapshot.text := by
  let w : Emulator.PlainOutput := ⟨[0x62], [(false, [0x63])], by decide⟩
  have hsets : ∀ sets : Charsets, sets = {} → ∀ c ∈ w.text, ∀ slot, (sets.get slot).map c ≠ 'x' := by
    rintro _ rfl c hc slot
    rw [Charsets.map_ascii]
    rintro rfl
    revert hc
    decide +kernel
  refine clearAll_forgets 10 4 10 (0x61 :: Emulator.switchSequence true ++ [0x78]) (by decide) w
    (by decide +kernel) (by decide +kernel) (hsets _ (by decide +kernel)) fun _ _ => ?_
  refine ⟨⟨by decide +kernel, by decide +kernel⟩, fun c hc => ⟨?_, hsets _ (by decide +kernel) c hc⟩⟩
  rintro rfl
  revert hc
  decide +kernel

-- The main screen is not reset behind the alternate one: what stands on it comes back.
theorem clearAll_keeps_main : ∃ w : Emulator.PlainOutput, 'x' ∉ w.text ∧
    'x' ∈ ((((new (.new 10 4) 10).write (0x78 :: Emulator.switchSequence true)).clearAll).write
      w.bytes).snapshot.text :=
  ⟨⟨[], [(false, [])], by decide⟩, by decide +kernel, by decide +kernel⟩

end Terminal

end ShellTranscript
