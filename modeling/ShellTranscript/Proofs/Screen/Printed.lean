import Mathlib.Tactic.Common
import ShellTranscript.Proofs.Screen.Shown
import ShellTranscript.Proofs.Session.Script

-- What printable text, line ends, strings for the operating system and a reset do to an emulator
-- whose screen shows a page, after all of the bytes and after each of them.
namespace ShellTranscript

open Text Episode

theorem Screen.Shows.congr {s s' : Screen} {size : ScreenSize} {limit : Nat} {p : Page}
    (h : s.Shows size limit p) (hgrid : s'.grid = s.grid) (hmodes : s'.modes = s.modes)
    (hregion : s'.top = s.top ∧ s'.bottom = s.bottom) (hslot : s'.slot = s.slot) :
    s'.Shows size limit p := by
  obtain ⟨hplain, hlays, hfits⟩ := h
  refine ⟨⟨?_, ?_, ?_, hmodes.trans hplain.modes, hregion.1.trans hplain.top,
    hregion.2.trans hplain.bottom, ?_, ?_⟩, ?_, hfits⟩
  · rw [← hplain.columns, Screen.columns, hgrid]
    rfl
  · rw [← hplain.lines, Screen.lines, hgrid]
    rfl
  · rw [hgrid, hplain.limit]
  · rw [hgrid, hplain.pen]
  · rw [hgrid, hslot, hplain.charset]
  · rw [hgrid]
    exact hlays

-- What the bytes of a reset do.
def Screen.erased (s : Screen) : Screen := ((s.moveTo 0 0).eraseScreen .whole).eraseScreen .history

namespace Emulator

-- Something that holds of the screen before and after each of some bytes.
def Throughout (P : Screen → Prop) (e : Emulator) (bytes : List UInt8) : Prop :=
  ∀ front back, bytes = front ++ back → P (e.feed front).screen

theorem Throughout.nil {P : Screen → Prop} {e : Emulator} (h : P e.screen) : e.Throughout P [] := by
  intro front back hbytes
  obtain ⟨rfl, -⟩ := List.append_eq_nil_iff.mp hbytes.symm
  exact h

theorem Throughout.append {P : Screen → Prop} {e : Emulator} {first second : List UInt8}
    (h : e.Throughout P first) (h' : (e.feed first).Throughout P second) :
    e.Throughout P (first ++ second) := by
  intro front back hbytes
  rcases List.append_eq_append_iff.mp hbytes with ⟨middle, rfl, hsecond⟩ | ⟨middle, hfirst, -⟩
  · rw [feed_append]
    exact h' middle back hsecond
  · exact h front middle hfirst

theorem Throughout.cons {P : Screen → Prop} {e : Emulator} {b : UInt8} {bytes : List UInt8}
    (h : P e.screen) (h' : (e.step b).Throughout P bytes) : e.Throughout P (b :: bytes) := by
  intro front back hbytes
  cases front with
  | nil => exact h
  | cons c front =>
    obtain ⟨rfl, hrest⟩ := List.cons.inj hbytes
    exact h' front back hrest

-- Ready to go on writing behind a page.
structure Poised (e : Emulator) (size : ScreenSize) (limit : Nat) (p : Page) : Prop where
  control : e.control = .start
  held : e.held = none
  shows : e.screen.Shows size limit p
  atEnd : e.screen.AtEnd size.columns p

-- The screen shows a page whose text so far is the start of a target.
def Within (size : ScreenSize) (limit : Nat) (target : Text) (s : Screen) : Prop :=
  ∃ p, s.Shows size limit p ∧ p.typed <+: target

theorem step_of_read {e : Emulator} (hheld : e.held = none) {b : UInt8} {control : ControlState}
    {items : List ControlItem} (hstep : e.control.step b = (control, items))
    (hitems : items.any startsHold = false) :
    e.step b = { e with control, screen := items.foldl Screen.apply e.screen } := by
  simp only [step, hheld, Emulator.read, hstep, hitems, Bool.false_eq_true, if_false]

section Writing

variable {e : Emulator} {size : ScreenSize} {limit : Nat} {p : Page} {target : Text}

theorem step_printable (hcontrol : e.control = .start) (hheld : e.held = none) {c : Char}
    (hc : Printable c) :
    e.step (byteOf c) = { e with screen := { e.screen.print c with lastPrinted := some c } } := by
  have hbyte := hc.toNat_byteOf
  have hescape : byteOf c ≠ 0x1B := by
    intro h
    rw [h] at hbyte
    exact absurd hc.1 (by rw [← hbyte]; decide)
  have hdecoded : Utf8.step .start (byteOf c) = (.start, [.char c]) := by
    rw [Utf8.step, Utf8.first, if_pos (by rw [hbyte]; exact Nat.lt_succ_of_lt hc.2), hc.ofNat_byteOf]
  have hitem : ControlState.itemOfDecoded (.char c) = .print c := by
    have := hc.1
    have := hc.2
    rw [ControlState.itemOfDecoded, if_neg (by omega)]
  have hstep : e.control.step (byteOf c) = (e.control, [.print c]) := by
    rw [hcontrol]
    simp only [ControlState.start, ControlState.step, ControlState.stepGround, if_neg hescape,
      hdecoded, List.map_cons, List.map_nil, hitem]
  exact step_of_read hheld hstep rfl

theorem Poised.step_printable (h : e.Poised size limit p) (hpos : 0 < size.columns) {c : Char}
    (hc : Printable c) :
    (e.step (byteOf c)).Poised size limit ((p.print size.columns c).newest (limit + size.rows)) := by
  obtain ⟨hshows, hend⟩ := h.shows.print h.atEnd hpos (cellWidth?_of_ascii hc.1 hc.2)
  rw [Emulator.step_printable h.control h.held hc]
  exact ⟨h.control, h.held, hshows.congr rfl rfl ⟨rfl, rfl⟩ rfl, ⟨hend.column, hend.needsWrap⟩⟩

theorem Poised.feed_text (h : e.Poised size limit p) (hpos : 0 < size.columns) {t : Text}
    (ht : ∀ c ∈ t, Printable c) (hroom : (p.type size.columns t).height ≤ limit + size.rows)
    (htarget : p.typed ++ t <+: target) :
    (e.feed (Utf8.encode t)).Poised size limit (p.type size.columns t) ∧
      e.Throughout (Within size limit target) (Utf8.encode t) := by
  induction t generalizing e p with
  | nil => exact ⟨h, .nil ⟨p, h.shows, by simpa using htarget⟩⟩
  | cons c t ih =>
    have hc := ht c List.mem_cons_self
    have hnow : p.typed <+: target := (List.prefix_append _ _).trans htarget
    have htype : p.type size.columns (c :: t) = (p.print size.columns c).type size.columns t := rfl
    rw [htype] at hroom
    have hstep := h.step_printable hpos hc
    rw [Page.newest_of_le (Nat.le_trans (Page.height_le_type size.columns _ t) hroom)] at hstep
    obtain ⟨hlast, hthroughout⟩ := ih hstep (fun d hd => ht d (List.mem_cons_of_mem _ hd)) hroom (by
      rw [Page.typed_print, List.append_assoc]
      exact htarget)
    rw [hc.encode_cons, htype]
    exact ⟨hlast, .cons ⟨p, h.shows, hnow⟩ hthroughout⟩

-- A carriage return and a line feed.
theorem feed_lineEnd (hcontrol : e.control = .start) (hheld : e.held = none) :
    e.step 0x0D = { e with screen := e.screen.carriageReturn } ∧
      e.feed lineEnd = { e with screen := e.screen.carriageReturn.lineFeed } := by
  have hreturn : e.step 0x0D = { e with screen := e.screen.carriageReturn } := by
    have hstep : e.control.step 0x0D = (e.control, [.execute 0x0D]) := by
      rw [hcontrol]
      rfl
    exact step_of_read hheld hstep rfl
  refine ⟨hreturn, ?_⟩
  have hstep : e.control.step 0x0A = (e.control, [.execute 0x0A]) := by
    rw [hcontrol]
    rfl
  show (e.step 0x0D).step 0x0A = _
  rw [hreturn]
  exact step_of_read (e := { e with screen := e.screen.carriageReturn }) hheld hstep rfl

theorem Poised.feed_lineEnd (h : e.Poised size limit p) (hpos : 0 < size.columns) :
    (e.feed lineEnd).Poised size limit (p.newLine.newest (limit + size.rows)) := by
  obtain ⟨hfed, hcolumn, hwrap⟩ := h.shows.carriageReturn.lineFeed
  rw [(Emulator.feed_lineEnd h.control h.held).2]
  exact ⟨h.control, h.held, hfed,
    Screen.atEnd_of_home hpos rfl (hcolumn.trans rfl) (hwrap.trans rfl)⟩

theorem Poised.feed_line (h : e.Poised size limit p) (hpos : 0 < size.columns) {line : Text}
    (hline : ∀ c ∈ line, Printable c) (hend : (p.last ++ line).getLast? ≠ some ' ')
    (hroom : (p.typeLine size.columns line).height ≤ limit + size.rows)
    (htarget : p.typed ++ line ++ ['\n'] <+: target) :
    (e.feed (lineBytes line)).Poised size limit (p.typeLine size.columns line) ∧
      e.Throughout (Within size limit target) (lineBytes line) := by
  have hheight : (p.type size.columns line).height < limit + size.rows := by
    rw [Page.typeLine, Page.height_newLine] at hroom
    exact hroom
  have hnow : p.typed ++ line <+: target := (List.prefix_append _ _).trans htarget
  obtain ⟨hwritten, hthroughout⟩ := h.feed_text hpos hline (Nat.le_of_lt hheight) hnow
  have hreturn := (Emulator.feed_lineEnd hwritten.control hwritten.held).1
  have hafter : (e.feed (lineBytes line)).Poised size limit (p.typeLine size.columns line) := by
    have hended := hwritten.feed_lineEnd hpos
    rw [Page.newest_of_le (by rw [Page.height_newLine]; exact hheight)] at hended
    rw [lineBytes, feed_append]
    exact hended
  refine ⟨hafter, hthroughout.append (.cons ?_ (.cons ?_ (.nil ?_)))⟩
  · exact ⟨_, hwritten.shows, by rwa [Page.typed_type]⟩
  · rw [hreturn]
    exact ⟨_, hwritten.shows.carriageReturn, by rwa [Page.typed_type]⟩
  · rw [lineBytes, feed_append] at hafter
    exact ⟨_, hafter.shows, by rwa [Page.typed_typeLine size.columns hend]⟩

theorem Poised.feed_lines (h : e.Poised size limit p) (hpos : 0 < size.columns)
    (hlast : p.last = []) {lines : List Text}
    (hlines : ∀ line ∈ lines, (∀ c ∈ line, Printable c) ∧ line.getLast? ≠ some ' ')
    (hroom : (p.typeLines size.columns lines).height ≤ limit + size.rows)
    (htarget : p.typed ++ lines.flatMap (fun line => line ++ ['\n']) <+: target) :
    (e.feed (lines.flatMap lineBytes)).Poised size limit (p.typeLines size.columns lines) ∧
      e.Throughout (Within size limit target) (lines.flatMap lineBytes) := by
  induction lines generalizing e p with
  | nil => exact ⟨h, .nil ⟨p, h.shows, by simpa using htarget⟩⟩
  | cons line lines ih =>
    obtain ⟨hprintable, htrimmed⟩ := hlines line List.mem_cons_self
    have hend : (p.last ++ line).getLast? ≠ some ' ' := by
      rw [hlast]
      exact htrimmed
    have htyped := Page.typed_typeLine size.columns hend
    have hlater : (p.typeLines size.columns (line :: lines)).height =
        (p.typeLine size.columns line).height + Page.rowsForAll size.columns lines :=
      Page.height_typeLines rfl hpos lines
    rw [List.flatMap_cons, ← List.append_assoc, ← List.append_assoc] at htarget
    obtain ⟨hfirst, hthroughout⟩ := h.feed_line hpos hprintable hend
      (Nat.le_trans (by rw [hlater]; exact Nat.le_add_right _ _) hroom)
      ((List.prefix_append _ _).trans htarget)
    obtain ⟨hrest, hthroughout'⟩ := ih hfirst rfl
      (fun l hl => hlines l (List.mem_cons_of_mem _ hl)) hroom (by rwa [htyped])
    rw [List.flatMap_cons, feed_append]
    exact ⟨hrest, hthroughout.append hthroughout'⟩

theorem feed_payload (hcontrol : e.control = .systemString) (hheld : e.held = none)
    {payload : Text} (hpayload : ∀ c ∈ payload, Printable c) :
    e.feed (Utf8.encode payload) = e ∧
      e.Throughout (fun s => s = e.screen) (Utf8.encode payload) := by
  induction payload with
  | nil => exact ⟨rfl, .nil rfl⟩
  | cons c payload ih =>
    have hc := hpayload c List.mem_cons_self
    have hne : ∀ b : UInt8, b.toNat < 0x20 → byteOf c ≠ b := by
      intro b hb heq
      have hbyte := hc.toNat_byteOf
      rw [heq] at hbyte
      exact absurd hc.1 (by omega)
    have hread : e.control.step (byteOf c) = (.systemString, []) := by
      rw [hcontrol, ControlState.step, if_neg (hne 0x07 (by decide)), ControlState.interrupt,
        if_neg (not_or.mpr ⟨hne 0x18 (by decide), hne 0x1A (by decide)⟩),
        if_neg (hne 0x1B (by decide))]
    have hstep : e.step (byteOf c) = e := by
      rw [step_of_read hheld hread rfl, ← hcontrol]
      rfl
    obtain ⟨hlast, hthroughout⟩ := ih fun d hd => hpayload d (List.mem_cons_of_mem _ hd)
    rw [hc.encode_cons]
    refine ⟨?_, .cons rfl ?_⟩
    · show (e.step (byteOf c)).feed (Utf8.encode payload) = e
      rw [hstep, hlast]
    · rw [hstep]
      exact hthroughout

-- Such a string leaves the emulator as it was, and all the time it leaves the screen alone.
theorem feed_mark (hcontrol : e.control = .start) (hheld : e.held = none) {payload : Text}
    (hpayload : ∀ c ∈ payload, Printable c) :
    e.feed (mark payload) = e ∧ e.Throughout (fun s => s = e.screen) (mark payload) := by
  have hescape : e.step 0x1B = { e with control := .escape } := by
    have hread : e.control.step 0x1B = (.escape, []) := by
      rw [hcontrol]
      rfl
    exact step_of_read hheld hread rfl
  have hopened : ({ e with control := .escape } : Emulator).step 0x5D =
      { e with control := .systemString } := by
    have hread : ControlState.escape.step 0x5D = (.systemString, []) := rfl
    exact step_of_read (e := { e with control := .escape }) hheld hread rfl
  have hclosed : ({ e with control := .systemString } : Emulator).step 0x07 = e := by
    have hread : ControlState.systemString.step 0x07 = (.start, []) := rfl
    rw [step_of_read (e := { e with control := .systemString }) hheld hread rfl, ← hcontrol]
    rfl
  obtain ⟨hlast, hthroughout⟩ := feed_payload (e := { e with control := .systemString }) rfl hheld
    hpayload
  have hopening : e.feed [0x1B, 0x5D] = { e with control := .systemString } := by
    show (e.step 0x1B).step 0x5D = _
    rw [hescape, hopened]
  have hbefore : e.feed ([0x1B, 0x5D] ++ Utf8.encode payload) =
      { e with control := .systemString } := by rw [feed_append, hopening, hlast]
  refine ⟨?_, ?_⟩
  · rw [mark, feed_append, hbefore]
    exact hclosed
  · refine .append (.append (.cons rfl (.cons ?_ (.nil ?_))) ?_) (.cons ?_ (.nil ?_))
    · rw [hescape]
    · rw [hescape, hopened]
    · rw [hopening]
      exact hthroughout
    · rw [hbefore]
    · rw [hbefore, hclosed]

-- The items of some bytes, read from a state of the grammar.
def itemsOf (control : ControlState) : List UInt8 → ControlState × List ControlItem
  | [] => (control, [])
  | b :: bytes =>
    let first := control.step b
    let rest := itemsOf first.1 bytes
    (rest.1, first.2 ++ rest.2)

theorem feed_of_items {bytes : List UInt8} (hheld : e.held = none)
    (hitems : (itemsOf e.control bytes).2.any startsHold = false) :
    e.feed bytes = { e with
      control := (itemsOf e.control bytes).1
      screen := (itemsOf e.control bytes).2.foldl Screen.apply e.screen } := by
  induction bytes generalizing e with
  | nil => rfl
  | cons b bytes ih =>
    simp only [itemsOf, List.any_append, Bool.or_eq_false_iff] at hitems
    have hstep : e.step b = { e with
        control := (e.control.step b).1
        screen := (e.control.step b).2.foldl Screen.apply e.screen } :=
      step_of_read hheld (Prod.eta _).symm hitems.1
    have hrest := ih (e := e.step b) (by rw [hstep]; exact hheld) (by rw [hstep]; exact hitems.2)
    show (e.step b).feed bytes = _
    rw [hrest, hstep]
    simp only [itemsOf, List.foldl_append]

theorem itemOfDecoded_cases (d : Utf8.Decoded) :
    (∃ code, ControlState.itemOfDecoded d = .execute code) ∨
      ControlState.itemOfDecoded d = .print d.toChar := by
  unfold ControlState.itemOfDecoded
  split
  · split
    · exact .inl ⟨_, rfl⟩
    · exact .inr rfl
  · split
    · exact .inl ⟨_, rfl⟩
    · exact .inr rfl
  · exact .inr rfl

theorem startsHold_itemOfDecoded (decoded : List Utf8.Decoded) :
    (decoded.map ControlState.itemOfDecoded).any startsHold = false := by
  refine List.any_eq_false.mpr fun item hitem => ?_
  obtain ⟨d, -, rfl⟩ := List.mem_map.mp hitem
  rcases itemOfDecoded_cases d with ⟨code, hcode⟩ | hprint
  · rw [hcode]
    exact Bool.false_ne_true
  · rw [hprint]
    exact Bool.false_ne_true

-- What an ESC makes of a state: an unfinished character is given up, everything else is dropped.
def brokenOff : ControlState → List ControlItem
  | .ground pending => (Utf8.finish pending).map ControlState.itemOfDecoded
  | _ => []

theorem step_escape (control : ControlState) :
    control.step 0x1B = (.escape, brokenOff control) := by
  cases control <;> rfl

theorem startsHold_brokenOff (control : ControlState) :
    (brokenOff control).any startsHold = false := by
  cases control with
  | ground pending => exact startsHold_itemOfDecoded _
  | _ => rfl

-- A sequence is read the same way whatever was unfinished before it.
theorem feed_escape (hheld : e.held = none) {bytes : List UInt8}
    {items : List ControlItem} (hitems : itemsOf .escape bytes = (.start, items))
    (hhold : items.any startsHold = false) :
    e.feed (0x1B :: bytes) = { e with
      control := .start
      screen := items.foldl Screen.apply ((brokenOff e.control).foldl Screen.apply e.screen) } := by
  have hfirst := step_of_read hheld (step_escape e.control) (startsHold_brokenOff e.control)
  show (e.step 0x1B).feed bytes = _
  rw [hfirst]
  have hrest := feed_of_items (e := { e with
    control := .escape
    screen := (brokenOff e.control).foldl Screen.apply e.screen }) hheld (by rw [hitems]; exact hhold)
  rw [hrest, hitems]

theorem feed_reset_of_any (hheld : e.held = none) :
    e.feed Terminal.resetSequence = { e with
      control := .start
      screen := ((brokenOff e.control).foldl Screen.apply e.screen).erased } := by
  have hitems : itemsOf .escape Terminal.resetSequence.tail =
      (.start, [.sequence [[0]] [] 0x48, .sequence [[2]] [] 0x4A, .sequence [[3]] [] 0x4A]) := by
    decide +kernel
  exact feed_escape hheld hitems rfl

theorem feed_reset (hcontrol : e.control = .start) (hheld : e.held = none) :
    e.feed Terminal.resetSequence = { e with screen := e.screen.erased } := by
  rw [feed_reset_of_any hheld, hcontrol]
  rfl

theorem Poised.reset (h : e.Poised size limit p) (hrows : 0 < size.rows) (hpos : 0 < size.columns) :
    (e.feed Terminal.resetSequence).Poised size limit {} := by
  obtain ⟨hshows, hend⟩ := h.shows.reset hrows hpos
  rw [feed_reset h.control h.held]
  exact ⟨h.control, h.held, hshows, hend⟩

theorem poised_new (size : ScreenSize) (limit : Nat) (hrows : 0 < size.rows)
    (hpos : 0 < size.columns) :
    (Emulator.new size.columns size.rows limit).Poised size limit {} :=
  ⟨rfl, rfl, Screen.shows_new size limit hrows, Screen.atEnd_of_home hpos rfl rfl rfl⟩

end Writing

end Emulator

end ShellTranscript
