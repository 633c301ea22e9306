import Mathlib.Tactic.Common
import ShellTranscript.Proofs.Text.Cut
import ShellTranscript.Snapshot

-- The styled ranges that a screen renders are the run-length encoding of the looks of its text: none
-- is empty, each ends before the next one starts, all lie in the text that is rendered with them, and
-- a range is a longest run of characters written for cells of one look other than the default.
namespace ShellTranscript

open Text

-- The styled ranges of a snapshot lie in its text.
def Snapshot.RangesInside (s : Snapshot) : Prop :=
  ∀ range ∈ s.ranges, range.start ≤ range.stop ∧ range.stop ≤ byteLength s.text

structure Snapshot.RangesOrdered (s : Snapshot) : Prop where
  ascending : s.ranges.Pairwise fun earlier later => earlier.stop ≤ later.start
  inside : ∀ range ∈ s.ranges, range.start < range.stop ∧ range.stop ≤ byteLength s.text

theorem Snapshot.RangesOrdered.rangesInside {s : Snapshot} (h : s.RangesOrdered) : s.RangesInside := by
  intro range hrange
  have := h.inside range hrange
  omega

namespace StyledSpan

-- Ranges as they are collected, the last one first.
structure Collected (limit : Nat) (ranges : List StyledSpan) : Prop where
  descending : ranges.Pairwise fun later earlier => earlier.stop ≤ later.start
  inside : ∀ range ∈ ranges, range.start < range.stop ∧ range.stop ≤ limit

section Collecting

variable {start stop : Nat} {ranges : List StyledSpan}

theorem collected_nil (limit : Nat) : Collected limit [] :=
  ⟨.nil, fun _ hrange => (List.not_mem_nil hrange).elim⟩

theorem Collected.grow (h : Collected start ranges) (hle : start ≤ stop) : Collected stop ranges := by
  refine ⟨h.descending, fun range hrange => ?_⟩
  have := h.inside range hrange
  omega

theorem Collected.cons (h : Collected start ranges) (hlt : start < stop) (style : Appearance) :
    Collected stop (⟨start, stop, style⟩ :: ranges) := by
  refine ⟨List.pairwise_cons.mpr ⟨fun range hrange => (h.inside range hrange).2, h.descending⟩, ?_⟩
  intro range hrange
  rcases List.mem_cons.mp hrange with rfl | hrange
  · exact ⟨hlt, Nat.le_refl stop⟩
  · exact (h.grow (Nat.le_of_lt hlt)).inside range hrange

-- The last range goes on where it has ended.
theorem Collected.extend {last : StyledSpan} (h : Collected start (last :: ranges))
    (hlt : start < stop) : Collected stop ({ last with stop } :: ranges) := by
  obtain ⟨hlast, hrest⟩ := List.pairwise_cons.mp h.descending
  refine ⟨List.pairwise_cons.mpr ⟨hlast, hrest⟩, fun range hrange => ?_⟩
  rcases List.mem_cons.mp hrange with rfl | hrange
  · have hinside := h.inside last List.mem_cons_self
    exact ⟨by simp only; omega, Nat.le_refl stop⟩
  · have hinside := h.inside range (List.mem_cons_of_mem _ hrange)
    omega

-- The text of pieces that have one look each.
def textOf (pieces : List (Text × Appearance)) : Text := pieces.flatMap Prod.fst

variable {pieces : List (Text × Appearance)} {text : Text} {style : Appearance}

theorem byteLength_textOf_append (front : List (Text × Appearance)) (text : Text)
    (style : Appearance) (back : List (Text × Appearance)) :
    byteLength (textOf (front ++ (text, style) :: back)) =
      byteLength (textOf front) + byteLength text + byteLength (textOf back) := by
  simp only [textOf, List.flatMap_append, List.flatMap_cons, byteLength_append]
  omega

theorem textOf_concat (pieces : List (Text × Appearance)) (text : Text) (style : Appearance) :
    textOf (pieces ++ [(text, style)]) = textOf pieces ++ text := by
  simp [textOf]

-- What ranges say about the pieces of a text, in whatever order they are listed: they begin and end
-- between characters, a piece lies in a range of its own look, and one of the default look in none.
structure Marks (pieces : List (Text × Appearance)) (ranges : List StyledSpan) : Prop where
  cut : ∀ range ∈ ranges, IsCut (textOf pieces) range.start ∧ IsCut (textOf pieces) range.stop
  styled : ∀ (front back : List (Text × Appearance)) (text : Text) (style : Appearance),
    pieces = front ++ (text, style) :: back → style ≠ {} → ∃ range ∈ ranges, range.style = style ∧
      range.start ≤ byteLength (textOf front) ∧
        byteLength (textOf front) + byteLength text ≤ range.stop
  plain : ∀ (front back : List (Text × Appearance)) (text : Text),
    pieces = front ++ (text, {}) :: back → ∀ range ∈ ranges,
      range.stop ≤ byteLength (textOf front) ∨
        byteLength (textOf front) + byteLength text ≤ range.start

-- The longest runs of one look, in ascending order.
structure Encodes (pieces : List (Text × Appearance)) (ranges : List StyledSpan) : Prop where
  ascending : ranges.Pairwise fun earlier later => earlier.stop ≤ later.start
  inside : ∀ range ∈ ranges,
    range.start < range.stop ∧ range.stop ≤ byteLength (textOf pieces)
  parted : ranges.Pairwise fun earlier later =>
    earlier.stop = later.start → earlier.style ≠ later.style
  marks : Marks pieces ranges

-- The same of the ranges as they are collected.
structure Gathered (pieces : List (Text × Appearance)) (ranges : List StyledSpan) : Prop where
  texts : ∀ piece ∈ pieces, piece.1 ≠ []
  collected : Collected (byteLength (textOf pieces)) ranges
  parted : ranges.Pairwise fun later earlier =>
    earlier.stop = later.start → earlier.style ≠ later.style
  marks : Marks pieces ranges

theorem gathered_nil : Gathered [] [] where
  texts _ hpiece := absurd hpiece List.not_mem_nil
  collected := collected_nil 0
  parted := .nil
  marks := ⟨fun _ hrange => absurd hrange List.not_mem_nil,
    fun _ _ _ _ hsplit => absurd hsplit.symm (List.append_ne_nil_of_right_ne_nil _ (List.cons_ne_nil _ _)),
    fun _ _ _ _ _ hrange => absurd hrange List.not_mem_nil⟩

theorem split_concat {α : Type} {items front back : List α} {a b : α}
    (h : items ++ [b] = front ++ a :: back) :
    (items = front ∧ b = a) ∨ ∃ rest, items = front ++ a :: rest := by
  rcases List.eq_nil_or_concat back with rfl | ⟨rest, last, hconcat⟩
  · obtain ⟨hfront, hlast⟩ := List.append_inj' h rfl
    exact .inl ⟨hfront, List.cons.inj hlast |>.1⟩
  · obtain rfl : back = rest ++ [last] := hconcat.trans List.concat_eq_append
    have hmore : items ++ [b] = (front ++ a :: rest) ++ [last] := by
      rw [h, List.append_assoc, List.cons_append]
    exact .inr ⟨rest, (List.append_inj' hmore rfl).1⟩

theorem Marks.cut_concat (h : Marks pieces ranges) (text : Text) (style : Appearance) :
    ∀ range ∈ ranges, IsCut (textOf (pieces ++ [(text, style)])) range.start ∧
      IsCut (textOf (pieces ++ [(text, style)])) range.stop := by
  intro range hrange
  obtain ⟨hstart, hstop⟩ := h.cut range hrange
  rw [textOf_concat]
  exact ⟨hstart.append text, hstop.append text⟩

theorem isCut_end (pieces : List (Text × Appearance)) (text : Text) (style : Appearance) :
    IsCut (textOf (pieces ++ [(text, style)])) (byteLength (textOf pieces)) ∧
      IsCut (textOf (pieces ++ [(text, style)])) (byteLength (textOf pieces) + byteLength text) := by
  have hend := isCut_byteLength (textOf pieces ++ text) []
  rw [List.append_nil, byteLength_append] at hend
  rw [textOf_concat]
  exact ⟨isCut_byteLength (textOf pieces) text, hend⟩

-- A piece of the default look leaves the ranges alone.
theorem Gathered.plain (h : Gathered pieces ranges) (hne : text ≠ []) :
    Gathered (pieces ++ [(text, ({} : Appearance))]) ranges := by
  have hlonger : byteLength (textOf pieces) ≤
      byteLength (textOf (pieces ++ [(text, ({} : Appearance))])) := by
    rw [textOf_concat, byteLength_append]
    exact Nat.le_add_right _ _
  refine ⟨List.forall_mem_append.mpr ⟨h.texts, List.forall_mem_singleton.mpr hne⟩,
    h.collected.grow hlonger, h.parted, h.marks.cut_concat text {}, ?_, ?_⟩
  · intro front back text' style hsplit hstyle
    rcases split_concat hsplit with ⟨-, hpiece⟩ | ⟨rest, hold⟩
    · exact absurd (Prod.mk.inj hpiece).2.symm hstyle
    · exact h.marks.styled front rest text' style hold hstyle
  · intro front back text' hsplit range hrange
    rcases split_concat hsplit with ⟨rfl, -⟩ | ⟨rest, hold⟩
    · exact .inl (h.collected.inside range hrange).2
    · exact h.marks.plain front rest text' hold range hrange

-- A piece that does not go on with the last range starts one of its own.
theorem Gathered.cons (h : Gathered pieces ranges) (hne : text ≠ []) (hstyle : style ≠ {})
    (hnew : ∀ last ∈ ranges.head?, last.stop = byteLength (textOf pieces) → last.style ≠ style) :
    Gathered (pieces ++ [(text, style)]) (⟨byteLength (textOf pieces),
      byteLength (textOf pieces) + byteLength text, style⟩ :: ranges) := by
  have hpos : 0 < byteLength text := Nat.pos_of_ne_zero (mt byteLength_eq_zero_iff.mp hne)
  have hcollected := h.collected.cons (Nat.lt_add_of_pos_right hpos) style
  refine ⟨List.forall_mem_append.mpr ⟨h.texts, List.forall_mem_singleton.mpr hne⟩, ?_, ?_, ?_, ?_, ?_⟩
  · rwa [textOf_concat, byteLength_append]
  · refine List.pairwise_cons.mpr ⟨fun earlier hearlier htouches => ?_, h.parted⟩
    cases ranges with
    | nil => exact absurd hearlier List.not_mem_nil
    | cons last rest =>
      rcases List.mem_cons.mp hearlier with rfl | hrest
      · exact hnew earlier rfl htouches
      · -- the last range stands between
        have hbefore := (List.pairwise_cons.mp h.collected.descending).1 earlier hrest
        have hlast := h.collected.inside last List.mem_cons_self
        simp only at htouches
        omega
  · intro range hrange
    rcases List.mem_cons.mp hrange with rfl | hrange
    · exact isCut_end pieces text style
    · exact h.marks.cut_concat text style range hrange
  · intro front back text' style' hsplit hstyle'
    rcases split_concat hsplit with ⟨rfl, hpiece⟩ | ⟨rest, hold⟩
    · obtain ⟨rfl, rfl⟩ := Prod.mk.inj hpiece
      exact ⟨_, List.mem_cons_self, rfl, Nat.le_refl _, Nat.le_refl _⟩
    · obtain ⟨range, hrange, hcovers⟩ := h.marks.styled front rest text' style' hold hstyle'
      exact ⟨range, List.mem_cons_of_mem _ hrange, hcovers⟩
  · intro front back text' hsplit range hrange
    rcases split_concat hsplit with ⟨-, hpiece⟩ | ⟨rest, hold⟩
    · exact absurd (Prod.mk.inj hpiece).2 hstyle
    · rcases List.mem_cons.mp hrange with rfl | hrange
      · refine .inr ?_
        rw [hold, byteLength_textOf_append]
        exact Nat.le_add_right _ _
      · exact h.marks.plain front rest text' hold range hrange

-- A piece that touches the last range and has its look goes into it.
theorem Gathered.extend {last : StyledSpan} (h : Gathered pieces (last :: ranges)) (hne : text ≠ [])
    (htouches : last.stop = byteLength (textOf pieces)) (hstyle : last.style ≠ {}) :
    Gathered (pieces ++ [(text, last.style)])
      ({ last with stop := byteLength (textOf pieces) + byteLength text } :: ranges) := by
  have hpos : 0 < byteLength text := Nat.pos_of_ne_zero (mt byteLength_eq_zero_iff.mp hne)
  have hinside := h.collected.inside last List.mem_cons_self
  have hcollected := h.collected.extend (Nat.lt_add_of_pos_right hpos)
  refine ⟨List.forall_mem_append.mpr ⟨h.texts, List.forall_mem_singleton.mpr hne⟩, ?_, ?_, ?_, ?_, ?_⟩
  · rwa [textOf_concat, byteLength_append]
  · exact List.pairwise_cons.mpr (List.pairwise_cons.mp h.parted)
  · intro range hrange
    rcases List.mem_cons.mp hrange with rfl | hrange
    · exact ⟨(h.marks.cut_concat text last.style last List.mem_cons_self).1,
        (isCut_end pieces text last.style).2⟩
    · exact h.marks.cut_concat text last.style range (List.mem_cons_of_mem _ hrange)
  · intro front back text' style' hsplit hstyle'
    rcases split_concat hsplit with ⟨rfl, hpiece⟩ | ⟨rest, hold⟩
    · obtain ⟨rfl, rfl⟩ := Prod.mk.inj hpiece
      exact ⟨_, List.mem_cons_self, rfl, by simp only; omega, Nat.le_refl _⟩
    · obtain ⟨range, hrange, hsame, hstart, hstop⟩ :=
        h.marks.styled front rest text' style' hold hstyle'
      rcases List.mem_cons.mp hrange with rfl | hrange
      · exact ⟨_, List.mem_cons_self, hsame, hstart, by simp only; omega⟩
      · exact ⟨range, List.mem_cons_of_mem _ hrange, hsame, hstart, hstop⟩
  · intro front back text' hsplit range hrange
    rcases split_concat hsplit with ⟨-, hpiece⟩ | ⟨rest, hold⟩
    · exact absurd (Prod.mk.inj hpiece).2 hstyle
    · rcases List.mem_cons.mp hrange with rfl | hrange
      · -- the last range ended behind this piece, so it starts behind it too
        have hshown : 0 < byteLength text' :=
          Nat.pos_of_ne_zero (mt byteLength_eq_zero_iff.mp
            (h.texts (text', {}) (hold ▸ List.mem_append_right front List.mem_cons_self)))
        have hsplit' := h.marks.plain front rest text' hold last List.mem_cons_self
        rw [htouches, hold, byteLength_textOf_append] at hsplit'
        exact .inr (hsplit'.resolve_left (by omega))
      · exact h.marks.plain front rest text' hold range (List.mem_cons_of_mem _ hrange)

theorem Gathered.push (h : Gathered pieces ranges) (hne : text ≠ []) (style : Appearance) :
    Gathered (pieces ++ [(text, style)]) (push ranges (byteLength (textOf pieces))
      (byteLength (textOf pieces) + byteLength text) style) := by
  unfold StyledSpan.push
  by_cases hdefault : style.isDefault = true
  · obtain rfl : style = {} := beq_iff_eq.mp hdefault
    exact h.plain hne
  · have hstyle : style ≠ {} := fun heq => hdefault (beq_iff_eq.mpr heq)
    rw [if_neg hdefault]
    cases ranges with
    | nil => exact h.cons hne hstyle fun last hlast => absurd hlast (Option.not_mem_none last)
    | cons last rest =>
      by_cases htouches : last.stop = byteLength (textOf pieces) ∧ last.style = style
      · obtain ⟨hstop, rfl⟩ := htouches
        simp only [hstop, and_self, if_true]
        exact h.extend hne hstop hstyle
      · simp only [if_neg htouches]
        refine h.cons hne hstyle fun last' hlast hstop hsame => htouches ?_
        obtain rfl := Option.some.inj hlast
        exact ⟨hstop, hsame⟩

-- The pieces are taken one after the other; the ranges encode those that were taken.
private theorem gathered_foldl (h : Gathered pieces ranges) (more : List (Text × Appearance))
    (hmore : ∀ piece ∈ more, piece.1 ≠ []) :
    Gathered (pieces ++ more) (more.foldl (fun state piece => (state.1 + byteLength piece.1,
      StyledSpan.push state.2 state.1 (state.1 + byteLength piece.1) piece.2))
        (byteLength (textOf pieces), ranges)).2 := by
  induction more generalizing pieces ranges with
  | nil => rwa [List.append_nil]
  | cons piece more ih =>
    obtain ⟨text, style⟩ := piece
    have hpushed := h.push (hmore _ List.mem_cons_self) style
    have hrest := ih hpushed fun p hp => hmore p (List.mem_cons_of_mem _ hp)
    rwa [textOf_concat, byteLength_append, List.append_assoc, List.singleton_append] at hrest

theorem encodes_ofPieces (hpieces : ∀ piece ∈ pieces, piece.1 ≠ []) :
    Encodes pieces (ofPieces pieces) := by
  have h := gathered_foldl gathered_nil pieces hpieces
  rw [List.nil_append] at h
  refine ⟨List.pairwise_reverse.mpr h.collected.descending, ?_,
    List.pairwise_reverse.mpr h.parted, ?_, ?_, ?_⟩
  · exact fun range hrange => h.collected.inside range (List.mem_reverse.mp hrange)
  · exact fun range hrange => h.marks.cut range (List.mem_reverse.mp hrange)
  · intro front back text style hsplit hstyle
    obtain ⟨range, hrange, hcovers⟩ := h.marks.styled front back text style hsplit hstyle
    exact ⟨range, List.mem_reverse.mpr hrange, hcovers⟩
  · exact fun front back text hsplit range hrange =>
      h.marks.plain front back text hsplit range (List.mem_reverse.mp hrange)

end Collecting

end StyledSpan

theorem Row.pieces_ne_nil (row : Row) : ∀ piece ∈ row.pieces, piece.1 ≠ [] := by
  intro piece hpiece
  obtain ⟨c, -, rfl⟩ := List.mem_map.mp hpiece
  exact List.cons_ne_nil c.char c.marks

theorem Screen.piecesOfRows_ne_nil (rows : List Row) :
    ∀ piece ∈ piecesOfRows rows, piece.1 ≠ [] := by
  fun_induction piecesOfRows rows with
  | case1 => simp
  | case2 row => exact row.pieces_ne_nil
  | case3 row rest hrest ih =>
    intro piece hpiece
    rcases List.mem_append.mp hpiece with hhere | hlater
    · rcases List.mem_append.mp hhere with hrow | hfeed
      · exact row.pieces_ne_nil piece hrow
      · split at hfeed
        · cases hfeed
        · obtain rfl := List.mem_singleton.mp hfeed
          exact List.cons_ne_nil _ _
    · exact ih piece hlater

-- What a part of a text is written for: a cell, or the end of a line.
inductive Glyph where
  | cell (c : Cell)
  | lineEnd

namespace Glyph

def text : Glyph → Text
  | cell c => c.text
  | lineEnd => ['\n']

def style : Glyph → Appearance
  | cell c => c.style
  | lineEnd => {}

def piece (g : Glyph) : Text × Appearance := (g.text, g.style)

end Glyph

-- The cells of a row's text. Spacers have no text.
def Row.glyphs (row : Row) : List Glyph :=
  (row.textCells.filter fun c => !c.isSpacer).map Glyph.cell

namespace Screen

-- What is written for rows, from the first cell to the last. A row that the next one continues does
-- not end a line, and neither does the last one.
def glyphsOfRows : List Row → List Glyph
  | [] => []
  | [row] => row.glyphs
  | row :: rest =>
    row.glyphs ++ (if row.isWrapped then [] else [Glyph.lineEnd]) ++ glyphsOfRows rest

def glyphs (s : Screen) : List Glyph := glyphsOfRows s.shownRows

theorem map_piece_glyphs (row : Row) : row.glyphs.map Glyph.piece = row.pieces :=
  List.map_map

theorem piecesOfRows_eq_map (rows : List Row) :
    piecesOfRows rows = (glyphsOfRows rows).map Glyph.piece := by
  fun_induction piecesOfRows rows with
  | case1 => rfl
  | case2 row => exact (map_piece_glyphs row).symm
  | case3 row rest hrest ih =>
    rw [glyphsOfRows, List.map_append, List.map_append, map_piece_glyphs, ih]
    · split <;> rfl
    · exact hrest

-- The text is that of the cells shown and of the ends of their lines, and its ranges are the longest
-- runs of one look in it, without those of the default look.
theorem ranges_encode_looks (s : Screen) :
    s.render.1 = StyledSpan.textOf (s.glyphs.map Glyph.piece) ∧
      StyledSpan.Encodes (s.glyphs.map Glyph.piece) s.render.2 := by
  have hpieces : piecesOfRows s.shownRows = s.glyphs.map Glyph.piece := piecesOfRows_eq_map _
  have hencodes := StyledSpan.encodes_ofPieces (piecesOfRows_ne_nil s.shownRows)
  rw [hpieces] at hencodes
  rw [render, hpieces]
  exact ⟨rfl, hencodes⟩

end Screen

namespace Terminal

theorem snapshot_rangesOrdered (t : Terminal) : t.snapshot.RangesOrdered := by
  have h := StyledSpan.encodes_ofPieces (Screen.piecesOfRows_ne_nil t.screen.shownRows)
  exact ⟨h.ascending, h.inside⟩

theorem snapshot_rangesInside (t : Terminal) : t.snapshot.RangesInside :=
  t.snapshot_rangesOrdered.rangesInside

end Terminal

end ShellTranscript
