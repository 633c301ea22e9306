import Mathlib.Tactic.Common
import ShellTranscript.Proofs.Screen.Forgotten
import ShellTranscript.Proofs.Text.Decoded

-- What is printed is what is shown. Lines of characters that take one cell each are joined again
-- where the screen wrapped them, on any width and in the history too, as long as no row is lost.
namespace ShellTranscript

open Text Episode

-- A character that takes a cell is no control character.
theorem Text.isControl_of_width {c : Char} {n : Nat} (h : cellWidth? c = some n) :
    isControl c = false := by
  cases hcontrol : isControl c with
  | false => rfl
  | true => simp [cellWidth?, hcontrol] at h

theorem ControlState.itemOfDecoded_of_not_control {c : Char} (h : isControl c = false) :
    itemOfDecoded (.char c) = .print c := by
  simp only [isControl, Bool.or_eq_false_iff, Bool.and_eq_false_iff,
    decide_eq_false_iff_not] at h
  rw [itemOfDecoded, if_neg (by omega)]

theorem Text.escape_notMem_encode {t : Text} (h : ∀ c ∈ t, isControl c = false) :
    0x1B ∉ Utf8.encode t := by
  intro hmem
  obtain ⟨c, hc, hescape⟩ := Utf8.mem_encode_ascii hmem (by decide)
  have hcontrol := h c hc
  rw [isControl, hescape] at hcontrol
  exact absurd hcontrol (by decide)

-- The characters of a text without control characters are printed one after the other.
theorem Emulator.feed_encode {e : Emulator} (hcontrol : e.control = .start) (hheld : e.held = none)
    {t : Text} (h : ∀ c ∈ t, isControl c = false) :
    e.feed (Utf8.encode t) =
      { e with control := .start, screen := (t.map ControlItem.print).foldl Screen.apply e.screen } := by
  have hitems : (t.map Utf8.Decoded.char).map ControlState.itemOfDecoded =
      t.map ControlItem.print := by
    rw [List.map_map]
    exact List.map_congr_left fun c hc => ControlState.itemOfDecoded_of_not_control (h c hc)
  rw [feed_plain hcontrol hheld (escape_notMem_encode h), Utf8.run_encode, hitems]
  rfl

section Writing

variable {size : ScreenSize} {limit : Nat} {p : Page}

-- The characters of a text are printed one after the other. Rows for which there is no room are lost.
theorem Screen.Shows.prints {s : Screen} (h : s.Shows size limit p)
    (hend : s.AtEnd size.columns p) (hpos : 0 < size.columns) {t : Text}
    (ht : ∀ c ∈ t, cellWidth? c = some 1) :
    ((t.map ControlItem.print).foldl Screen.apply s).Shows size limit
        ((p.type size.columns t).newest (limit + size.rows)) ∧
      ((t.map ControlItem.print).foldl Screen.apply s).AtEnd size.columns
        (p.type size.columns t) := by
  induction t generalizing s p with
  | nil =>
    rw [Page.type, List.foldl_nil, Page.newest_of_le h.height_le]
    exact ⟨h, hend⟩
  | cons c t ih =>
    obtain ⟨hshows, hend'⟩ := h.print hend hpos (ht c List.mem_cons_self)
    obtain ⟨hrest, hlast⟩ := ih (s := s.apply (.print c)) (hshows.congr rfl rfl ⟨rfl, rfl⟩ rfl)
      ⟨hend'.column, hend'.needsWrap⟩ fun d hd => ht d (List.mem_cons_of_mem _ hd)
    have hsame := Page.newest_type size.columns (limit + size.rows)
      (p.print size.columns c) t
    have hlasts : (((p.print size.columns c).newest (limit + size.rows)).type size.columns t).last =
        (p.type size.columns (c :: t)).last := by
      have hnewest := congrArg Page.last hsame
      exact hnewest
    rw [hsame] at hrest
    exact ⟨hrest, hlasts ▸ hlast.column, hlasts ▸ hlast.needsWrap⟩

namespace Emulator

variable {e : Emulator}

theorem Poised.feed_chars (h : e.Poised size limit p) (hpos : 0 < size.columns) {t : Text}
    (ht : ∀ c ∈ t, cellWidth? c = some 1) :
    (e.feed (Utf8.encode t)).Poised size limit
      ((p.type size.columns t).newest (limit + size.rows)) := by
  obtain ⟨hshows, hend⟩ := h.shows.prints h.atEnd hpos ht
  rw [feed_encode h.control h.held fun c hc => isControl_of_width (ht c hc)]
  exact ⟨rfl, h.held, hshows, hend.column, hend.needsWrap⟩

-- Whole lines, of which the newest rows stay.
theorem Poised.feed_rows (h : e.Poised size limit p) (hpos : 0 < size.columns) {lines : List Text}
    (hlines : ∀ line ∈ lines, ∀ c ∈ line, cellWidth? c = some 1) :
    (e.feed (lines.flatMap lineBytes)).Poised size limit
      ((p.typeLines size.columns lines).newest (limit + size.rows)) := by
  induction lines generalizing e p with
  | nil =>
    rw [Page.typeLines, List.foldl_nil, Page.newest_of_le h.shows.height_le]
    exact h
  | cons line lines ih =>
    have hline := (h.feed_chars hpos (hlines line List.mem_cons_self)).feed_lineEnd hpos
    rw [Page.newest_newLine, ← Page.typeLine] at hline
    have hrest := ih hline fun l hl => hlines l (List.mem_cons_of_mem _ hl)
    rw [Page.newest_typeLines] at hrest
    rw [List.flatMap_cons, feed_append, lineBytes, feed_append]
    exact hrest

-- Lines that follow on an empty row are shown, joined by line feeds, if there is room for their rows.
theorem Poised.feed_joined (h : e.Poised size limit p) (hpos : 0 < size.columns)
    (hlast : p.last = []) {lines : List Text} (hne : lines ≠ [])
    (hchars : ∀ line ∈ lines, ∀ c ∈ line, cellWidth? c = some 1)
    (hends : ∀ line ∈ lines, line.getLast? ≠ some ' ')
    (hroom : p.height + Page.rowsForAll size.columns lines ≤ limit + size.rows + 1) :
    ∃ q : Page, (e.feed (Utf8.encode (['\r', '\n'].intercalate lines))).Poised size limit q ∧
      q.text = p.typed ++ ['\n'].intercalate lines := by
  induction lines generalizing e p with
  | nil => exact absurd rfl hne
  | cons line rest ih =>
    have hheight := Page.height_typeLine hlast hpos line
    have hend : (p.last ++ line).getLast? ≠ some ' ' := by
      rw [hlast]
      exact hends line List.mem_cons_self
    rw [Page.rowsForAll] at hroom
    have hbelow := hheight
    rw [Page.height_newLine] at hbelow
    have hwritten := h.feed_chars hpos (hchars line List.mem_cons_self)
    rw [Page.newest_of_le (by omega)] at hwritten
    cases rest with
    | nil =>
      refine ⟨_, by rwa [List.intercalate_singleton], ?_⟩
      rw [List.intercalate_singleton, Page.text_eq_typed (by rwa [Page.getLast?_last_type]),
        Page.typed_type]
    | cons next rest =>
      have hmore : 0 < Page.rowsForAll size.columns (next :: rest) :=
        Nat.lt_add_right _ (Nat.succ_pos _)
      have hfed := hwritten.feed_lineEnd hpos
      rw [Page.newest_of_le (by omega)] at hfed
      obtain ⟨q, hq, htext⟩ := ih hfed rfl (List.cons_ne_nil _ _)
        (fun l hl => hchars l (List.mem_cons_of_mem _ hl))
        (fun l hl => hends l (List.mem_cons_of_mem _ hl)) (by omega)
      refine ⟨q, ?_, ?_⟩
      · rw [List.intercalate_cons_cons, encode_append, encode_append, feed_append, feed_append]
        exact hq
      · rw [htext, ← Page.typeLine, Page.typed_typeLine size.columns hend,
          List.intercalate_cons_cons]
        simp only [List.append_assoc]

end Emulator

end Writing

-- No cell has a look of its own.
def Row.IsUnstyled (row : Row) : Prop := ∀ c ∈ row, c.pen = {}

theorem Row.IsUnstyled.pieces {row : Row} (h : row.IsUnstyled) :
    ∀ piece ∈ row.pieces, piece.2 = {} := by
  intro piece hpiece
  obtain ⟨c, hc, rfl⟩ := List.mem_map.mp hpiece
  have hmem := Row.mem_of_mem_textCells (List.mem_of_mem_filter hc)
  simp only [Cell.style, h c hmem]
  rfl

theorem Screen.unstyled_piecesOfRows {rows : List Row} (h : ∀ row ∈ rows, row.IsUnstyled) :
    ∀ piece ∈ piecesOfRows rows, piece.2 = {} := by
  fun_induction piecesOfRows rows with
  | case1 => simp
  | case2 row => exact (h row List.mem_cons_self).pieces
  | case3 row rest _ ih =>
    intro piece hpiece
    rcases List.mem_append.mp hpiece with hhere | hlater
    · rcases List.mem_append.mp hhere with hrow | hfeed
      · exact (h row List.mem_cons_self).pieces piece hrow
      · split at hfeed
        · cases hfeed
        · rw [List.mem_singleton.mp hfeed]
    · exact ih (fun r hr => h r (List.mem_cons_of_mem _ hr)) piece hlater

theorem StyledSpan.ofPieces_of_unstyled {pieces : List (Text × Appearance)}
    (h : ∀ piece ∈ pieces, piece.2 = {}) : ofPieces pieces = [] := by
  have hranges : ∀ start, (pieces.foldl (fun (state : Nat × List StyledSpan) piece =>
      (state.1 + byteLength piece.1,
        StyledSpan.push state.2 state.1 (state.1 + byteLength piece.1) piece.2))
      (start, [])).2 = [] := by
    induction pieces with
    | nil => exact fun _ => rfl
    | cons piece pieces ih =>
      intro start
      have hpush : push [] start (start + byteLength piece.1) piece.2 = [] := by
        rw [h piece List.mem_cons_self]
        rfl
      rw [List.foldl_cons]
      simp only [hpush]
      exact ih (fun p hp => h p (List.mem_cons_of_mem _ hp)) _
  exact congrArg List.reverse (hranges 0)

theorem Screen.Shows.render {s : Screen} {size : ScreenSize} {limit : Nat} {p : Page}
    (h : s.Shows size limit p) (hpos : 0 < size.columns) : s.render = (p.text, []) := by
  have htext : s.render.1 = p.text := h.plainText hpos
  have hranges : s.render.2 = [] := by
    refine StyledSpan.ofPieces_of_unstyled (Screen.unstyled_piecesOfRows fun row hrow => ?_)
    rw [h.shownRows, pageRows, List.mem_append] at hrow
    rcases hrow with hrow | hrow
    · obtain ⟨above, -, rfl⟩ := List.mem_map.mp hrow
      exact forall_mem_pageRow (P := fun c => c.pen = {}) (fun _ => rfl) (fun _ h => h) _ above
    · rw [List.mem_singleton.mp hrow]
      exact Row.forall_mem_ofText (P := fun c => c.pen = {}) fun _ => rfl
  rw [← htext, ← hranges]

namespace Terminal

-- However a stream is cut, the emulator reads it whole.
theorem foldl_write (t : Terminal) (chunks : List (List UInt8)) :
    (chunks.foldl write t).emulator = t.emulator.feed chunks.flatten ∧
      (chunks.foldl write t).epoch = t.epoch := by
  induction chunks generalizing t with
  | nil => exact ⟨rfl, rfl⟩
  | cons chunk chunks ih =>
    obtain ⟨hemulator, hepoch⟩ := ih (t.write chunk)
    rw [List.flatten_cons, Emulator.feed_append, ← write_emulator]
    exact ⟨hemulator, hepoch.trans (t.write_epoch chunk)⟩

-- Lines of characters that take one cell each and without spaces at their ends show as they were
-- printed, whatever the size and however the stream is cut, if the rows that they take fit on the
-- screen and into the history. Nothing of it has a style.
theorem shows_lines (columns rows scrollback : Nat) (lines : List Text) (hne : lines ≠ [])
    (hchars : ∀ line ∈ lines, ∀ c ∈ line, cellWidth? c = some 1)
    (hends : ∀ line ∈ lines, line.getLast? ≠ some ' ')
    (hroom : Page.rowsForAll (ScreenSize.new columns rows).columns lines ≤
      scrollback + (ScreenSize.new columns rows).rows)
    {chunks : List (List UInt8)}
    (hchunks : chunks.flatten = Utf8.encode (['\r', '\n'].intercalate lines)) :
    (chunks.foldl write (.new (.new columns rows) scrollback)).plainText =
        ['\n'].intercalate lines ∧
      (chunks.foldl write (.new (.new columns rows) scrollback)).snapshot =
        { text := ['\n'].intercalate lines, ranges := [], epoch := 0, alternate := false } := by
  have hpos : 0 < (ScreenSize.new columns rows).columns :=
    Nat.lt_of_lt_of_le Nat.one_pos (Nat.le_max_right _ _)
  have hrows : 0 < (ScreenSize.new columns rows).rows :=
    Nat.lt_of_lt_of_le Nat.one_pos (Nat.le_max_right _ _)
  have hnew := Emulator.poised_new (.new columns rows) scrollback hrows hpos
  have hheight : (({} : Page).height) = 1 := rfl
  obtain ⟨q, hpoised, htext⟩ := hnew.feed_joined hpos rfl hne hchars hends (by omega)
  obtain ⟨hemulator, hepoch⟩ := foldl_write (.new (.new columns rows) scrollback) chunks
  have hfed : (Terminal.new (.new columns rows) scrollback).emulator =
      .new (ScreenSize.new columns rows).columns (ScreenSize.new columns rows).rows scrollback := rfl
  rw [hchunks, hfed] at hemulator
  rw [← hemulator] at hpoised
  have hrender := hpoised.shows.render hpos
  have htyped : (({} : Page).typed) = [] := rfl
  rw [htext, htyped, List.nil_append] at hrender
  refine ⟨congrArg Prod.fst hrender, ?_⟩
  simp only [snapshot, Terminal.screen, isAlternate, hrender, hepoch,
    hpoised.shows.plain.isAlternate]
  rfl

-- On a narrow screen one line is wrapped and one ends at the margin. Two rows are in the history, and a
-- character is cut in two.
theorem shows_lines_narrow :
    ([[0x61, 0x20, 0xC3], [], [0xA9, 0x62, 0x0D, 0x0A, 0x0D], [0x0A, 0x63, 0x64, 0x65]].foldl write
      (.new (.new 3 2) 2)).plainText = ['a', ' ', 'é', 'b', '\n', '\n', 'c', 'd', 'e'] := by
  have hchars : ∀ line ∈ [['a', ' ', 'é', 'b'], [], ['c', 'd', 'e']], ∀ c ∈ line,
      cellWidth? c = some 1 := by
    simp [cellWidth?, isControl]
  exact (shows_lines 3 2 2 [['a', ' ', 'é', 'b'], [], ['c', 'd', 'e']] (by simp)
    hchars (by decide) (by decide) (by decide +kernel)).1

end Terminal

end ShellTranscript
