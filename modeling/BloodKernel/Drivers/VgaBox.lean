import BloodKernel.Drivers.Vga

set_option autoImplicit false

/-!
# Rectangles and boxes on the VGA screen

What `vga_fill_rect` and `vga_draw_box` leave on the screen, cell by cell. `vga_fill_rect` compares the sums
of its coordinates as `int`s, `vga_draw_box` hands them to `vga_putc_at` as `u8`s.

* `ChangesOnly`: the cells that may differ between two screens; `changesOnly_fillRect`.
* `boxCells`: the characters of a box with their places; `drawBox_eq_drawCells`, `mem_boxCells`.
* **`boxed_iff_fits`**: a box of at least two rows and columns is drawn as it should be, on every screen,
  exactly when none of its cells is narrowed onto the screen.
-/

namespace BloodKernel.Vga

open Lib

/-! ## Cells -/

/-- The cell in row `r` and column `c`. -/
def cell (r c : ℕ) : ℕ := r * 80 + c

theorem cell_inj {r c r' c' : ℕ} (hc : c < 80) (hc' : c' < 80) (h : cell r c = cell r' c') :
    r = r' ∧ c = c' := by
  unfold cell at h
  omega

/-- The cells of the rectangle that are on the screen. -/
def InRect (row col width height : U8) (i : ℕ) : Prop :=
  ∃ r c, i = cell r c ∧ (r < 25 ∧ c < 80) ∧
    (row.toNat ≤ r ∧ r < row.toNat + height.toNat) ∧ col.toNat ≤ c ∧ c < col.toNat + width.toNat

/-- A cell that differs between two screens satisfies `P`. -/
def ChangesOnly (P : ℕ → Prop) (s t : Screen) : Prop := ∀ i, t.buf i ≠ s.buf i → P i

variable {P : ℕ → Prop}

theorem ChangesOnly.refl (s : Screen) : ChangesOnly P s s := fun _ h => absurd rfl h

theorem ChangesOnly.trans {s t u : Screen} (h₁ : ChangesOnly P s t) (h₂ : ChangesOnly P t u) :
    ChangesOnly P s u := fun i h => by
  by_cases hi : u.buf i = t.buf i
  · exact h₁ i (hi ▸ h)
  · exact h₂ i hi

theorem changesOnly_store {s : Screen} {i : ℕ} (v : U16) (h : P i) : ChangesOnly P s (store s i v) :=
  fun j hj => by
    by_cases hji : j = i
    · exact hji ▸ h
    · exact absurd (Function.update_of_ne hji _ _) hj

/-- A loop whose steps change only such cells. -/
theorem changesOnly_foldl {α : Type} {f : Screen → α → Screen} {l : List α}
    (h : ∀ s, ∀ a ∈ l, ChangesOnly P s (f s a)) (s : Screen) : ChangesOnly P s (l.foldl f s) :=
  foldl_of_trans .refl (fun _ _ _ => .trans) h s

theorem lt_of_mem_clipped {first n : U8} {bound x : ℕ} (h : x ∈ clipped first n bound) :
    x < n.toNat :=
  List.mem_range.mp (List.takeWhile_subset _ h)

/-- **The filled rectangle.** -/
theorem changesOnly_fillRect (s : Screen) (row col width height c color : U8) :
    ChangesOnly (InRect row col width height) s (vgaFillRect s row col width height c color) := by
  refine changesOnly_foldl (fun s y hy => changesOnly_foldl (fun s x hx => ?_) s) s
  refine changesOnly_store _ ⟨row.toNat + y, col.toNat + x, rfl, ⟨mem_clipped hy, mem_clipped hx⟩, ?_⟩
  have hy := lt_of_mem_clipped hy
  have hx := lt_of_mem_clipped hx
  omega

/-! ## Characters at places -/

/-- A row, a column and a character. -/
abbrev Place : Type := U8 × U8 × U8

/-- `vga_putc_at` at some places, in order. -/
def drawCells (s : Screen) (color : U8) (l : List Place) : Screen :=
  l.foldl (fun s p => vgaPutcAt s p.2.2 p.1 p.2.1 color) s

/-- `vga_putc_at` stores this place's character in the cell `i`. -/
def Hits (p : Place) (i : ℕ) : Prop := (p.1.toNat < 25 ∧ p.2.1.toNat < 80) ∧ i = cell p.1.toNat p.2.1.toNat

theorem buf_putcAt_hit {p : Place} {i : ℕ} (h : Hits p i) (s : Screen) (color : U8) :
    (vgaPutcAt s p.2.2 p.1 p.2.1 color).buf i = vgaEntry p.2.2 color := by
  obtain ⟨hon, rfl⟩ := h
  unfold vgaPutcAt
  rw [if_pos hon]
  exact Function.update_self _ _ _

theorem buf_putcAt_miss {p : Place} {i : ℕ} (h : ¬Hits p i) (s : Screen) (color : U8) :
    (vgaPutcAt s p.2.2 p.1 p.2.1 color).buf i = s.buf i := by
  unfold vgaPutcAt
  split_ifs with hon
  · exact Function.update_of_ne (fun hi => h ⟨hon, hi⟩) _ _
  · rfl

theorem buf_drawCells_miss {l : List Place} {i : ℕ} (h : ∀ p ∈ l, ¬Hits p i) (s : Screen)
    (color : U8) : (drawCells s color l).buf i = s.buf i := by
  induction l generalizing s with
  | nil => rfl
  | cons p l ih =>
      have hhead := h p List.mem_cons_self
      have htail := ih (fun q hq => h q (List.mem_cons_of_mem _ hq)) (vgaPutcAt s p.2.2 p.1 p.2.1 color)
      exact htail.trans (buf_putcAt_miss hhead s color)

/-- A cell that some place hits holds the character of one that does, whatever was there before. -/
theorem buf_drawCells_hit {l : List Place} {i : ℕ} (h : ∃ p ∈ l, Hits p i) (color : U8) :
    ∃ q ∈ l, Hits q i ∧ ∀ s, (drawCells s color l).buf i = vgaEntry q.2.2 color := by
  induction l with
  | nil =>
      obtain ⟨p, hp, -⟩ := h
      exact absurd hp List.not_mem_nil
  | cons p l ih =>
      by_cases htail : ∃ q ∈ l, Hits q i
      · obtain ⟨q, hq, hhit, hbuf⟩ := ih htail
        exact ⟨q, List.mem_cons_of_mem _ hq, hhit, fun s => hbuf _⟩
      · -- the places after `p` miss the cell, so `p` hits it
        have hmiss : ∀ q ∈ l, ¬Hits q i := fun q hq hhit => htail ⟨q, hq, hhit⟩
        have hhead : Hits p i := by
          obtain ⟨q, hq, hhit⟩ := h
          rcases List.mem_cons.mp hq with rfl | hq
          · exact hhit
          · exact absurd hhit (hmiss q hq)
        refine ⟨p, List.mem_cons_self, hhead, fun s => ?_⟩
        exact (buf_drawCells_miss hmiss _ color).trans (buf_putcAt_hit hhead s color)

/-! ## Boxes -/

/-- The characters of a box with their places, in the order of `vga_draw_box`. -/
def boxCells (row col width height : U8) : List Place :=
  [(row, col, 0xDA)] ++ (inside width).map (fun x => (row, col + x, 0xC4)) ++
    [(row, col + width - 1, 0xBF)] ++
    (inside height).flatMap (fun y => [(row + y, col, 0xB3), (row + y, col + width - 1, 0xB3)]) ++
    [(row + height - 1, col, 0xC0)] ++
    (inside width).map (fun x => (row + height - 1, col + x, 0xC4)) ++
    [(row + height - 1, col + width - 1, 0xD9)]

theorem drawCells_append (s : Screen) (color : U8) (l l' : List Place) :
    drawCells s color (l ++ l') = drawCells (drawCells s color l) color l' := List.foldl_append

theorem drawCells_map (s : Screen) (color char : U8) (f : U8 → U8 × U8) (l : List U8) :
    drawCells s color (l.map fun x => ((f x).1, (f x).2, char)) = border s char color (l.map f) := by
  unfold drawCells border
  rw [List.foldl_map, List.foldl_map]

theorem drawCells_sides (s : Screen) (color row left right : U8) (l : List U8) :
    drawCells s color (l.flatMap fun y => [(row + y, left, 0xB3), (row + y, right, 0xB3)]) =
      l.foldl (fun s y =>
        vgaPutcAt (vgaPutcAt s 0xB3 (row + y) left color) 0xB3 (row + y) right color) s := by
  unfold drawCells
  rw [List.foldl_flatMap]
  rfl

theorem drawCells_singleton (s : Screen) (color r c char : U8) :
    drawCells s color [(r, c, char)] = vgaPutcAt s char r c color := rfl

/-- **The driver's box** is drawn place by place. -/
theorem drawBox_eq_drawCells (s : Screen) {row col width height : U8} (color : U8)
    (h : 2 ≤ width.toNat ∧ 2 ≤ height.toNat) :
    vgaDrawBox s row col width height color = drawCells s color (boxCells row col width height) := by
  unfold vgaDrawBox boxCells
  rw [if_neg (by omega)]
  simp only [drawCells_append, drawCells_singleton, drawCells_sides]
  rw [← drawCells_map _ _ _ fun x => (row, col + x),
    ← drawCells_map _ _ _ fun x => (row + height - 1, col + x)]

theorem drawBox_of_lt_two (s : Screen) {row col width height : U8} (color : U8)
    (h : width.toNat < 2 ∨ height.toNat < 2) : vgaDrawBox s row col width height color = s :=
  if_pos h

/-- The place `y` rows and `x` columns from the first cell is on the border of a rectangle of this size. -/
def OnBorder (width height : U8) (y x : ℕ) : Prop :=
  (y < height.toNat ∧ x < width.toNat) ∧
    (y = 0 ∨ y + 1 = height.toNat ∨ x = 0 ∨ x + 1 = width.toNat)

/-- The character of `box_chars` for a place on the border. -/
def boxChar (width height : U8) (y x : ℕ) : U8 :=
  if y = 0 then if x = 0 then 0xDA else if x + 1 = width.toNat then 0xBF else 0xC4
  else if y + 1 = height.toNat then
    if x = 0 then 0xC0 else if x + 1 = width.toNat then 0xD9 else 0xC4
  else 0xB3

/-- The arguments that `vga_putc_at` gets for a place on the border: the sums are narrowed to `u8`. -/
def boxPlace (row col width height : U8) (at' : ℕ × ℕ) : Place :=
  (row + BitVec.ofNat 8 at'.1, col + BitVec.ofNat 8 at'.2, boxChar width height at'.1 at'.2)

/-- The places on the border, in the order of `vga_draw_box`. -/
def boxOffsets (width height : ℕ) : List (ℕ × ℕ) :=
  [(0, 0)] ++ (List.range' 1 (width - 2)).map (fun x => (0, x)) ++ [(0, width - 1)] ++
    (List.range' 1 (height - 2)).flatMap (fun y => [(y, 0), (y, width - 1)]) ++
    [(height - 1, 0)] ++ (List.range' 1 (width - 2)).map (fun x => (height - 1, x)) ++
    [(height - 1, width - 1)]

theorem add_sub_one_eq (a : U8) {n : U8} (h : 2 ≤ n.toNat) :
    a + n - 1 = a + BitVec.ofNat 8 (n.toNat - 1) := by
  have h₁ : (1 : U8).toNat = 1 := rfl
  refine BitVec.eq_of_toNat_eq ?_
  rw [BitVec.toNat_sub, BitVec.toNat_add, BitVec.toNat_add, BitVec.toNat_ofNat, h₁]
  omega

section Box

variable {row col width height : U8}

theorem mem_boxOffsets (hsize : 2 ≤ width.toNat ∧ 2 ≤ height.toNat) {y x : ℕ} :
    (y, x) ∈ boxOffsets width.toNat height.toNat ↔ OnBorder width height y x := by
  unfold boxOffsets OnBorder
  simp only [List.mem_append, List.mem_map, List.mem_flatMap, List.mem_range'_1,
    List.mem_cons, List.not_mem_nil, or_false, Prod.mk.injEq]
  constructor
  · rintro ((((((⟨rfl, rfl⟩ | ⟨k, hk, rfl, rfl⟩) | ⟨rfl, rfl⟩) | ⟨k, hk, ⟨rfl, rfl⟩ | ⟨rfl, rfl⟩⟩) |
      ⟨rfl, rfl⟩) | ⟨k, hk, rfl, rfl⟩) | ⟨rfl, rfl⟩) <;> omega
  · rintro ⟨⟨hy, hx⟩, hside⟩
    have hmid : x ≠ 0 → x + 1 ≠ width.toNat → 1 ≤ x ∧ x < 1 + (width.toNat - 2) := by omega
    have hlast : x + 1 = width.toNat → x = width.toNat - 1 := by omega
    by_cases hy₀ : y = 0
    · by_cases hx₀ : x = 0
      · simp [hy₀, hx₀]
      · by_cases hx₁ : x + 1 = width.toNat
        · simp [hy₀, hlast hx₁]
        · simp [hy₀, hmid hx₀ hx₁]
    · by_cases hy₁ : y + 1 = height.toNat
      · have hy₁ : y = height.toNat - 1 := by omega
        by_cases hx₀ : x = 0
        · simp [hy₁, hx₀]
        · by_cases hx₁ : x + 1 = width.toNat
          · simp [hy₁, hlast hx₁]
          · simp [hy₁, hmid hx₀ hx₁]
      · -- between the first and the last row only the two sides are left
        have hrow : 1 ≤ y ∧ y < 1 + (height.toNat - 2) := by omega
        have hx : x = 0 ∨ x = width.toNat - 1 := by omega
        exact .inl (.inl (.inl (.inr ⟨y, hrow, hx.imp (⟨rfl, ·⟩) (⟨rfl, ·⟩)⟩)))

theorem map_inside {α : Type} {n : U8} {g : U8 → α} {f : ℕ → α}
    (h : ∀ k, k ≠ 0 → k + 1 ≠ n.toNat → g (BitVec.ofNat 8 k) = f k) :
    (inside n).map g = (List.range' 1 (n.toNat - 2)).map f := by
  unfold inside
  rw [List.map_map]
  refine List.map_congr_left fun k hk => ?_
  rw [List.mem_range'_1] at hk
  exact h k (by omega) (by omega)

theorem boxCells_eq_map (hsize : 2 ≤ width.toNat ∧ 2 ≤ height.toNat) :
    boxCells row col width height =
      (boxOffsets width.toNat height.toNat).map (boxPlace row col width height) := by
  have hzero (a : U8) : a + BitVec.ofNat 8 0 = a := BitVec.add_zero a
  have hright := add_sub_one_eq col hsize.1
  have hbelow := add_sub_one_eq row hsize.2
  have hw : width.toNat - 1 ≠ 0 ∧ width.toNat - 1 + 1 = width.toNat := by omega
  have hh : height.toNat - 1 ≠ 0 ∧ height.toNat - 1 + 1 = height.toNat := by omega
  have htop : (inside width).map (fun x => (row, col + x, (0xC4 : U8))) =
      (List.range' 1 (width.toNat - 2)).map fun x => boxPlace row col width height (0, x) :=
    map_inside fun x hx₀ hx₁ => by
      simp only [boxPlace, boxChar, hzero, if_pos, if_neg hx₀, if_neg hx₁]
  have hbottom : (inside width).map (fun x => (row + height - 1, col + x, (0xC4 : U8))) =
      (List.range' 1 (width.toNat - 2)).map fun x =>
        boxPlace row col width height (height.toNat - 1, x) :=
    map_inside fun x hx₀ hx₁ => by
      simp only [boxPlace, boxChar, hbelow, if_neg hh.1, if_pos hh.2, if_neg hx₀, if_neg hx₁]
  have hsides : (inside height).flatMap (fun y =>
        [(row + y, col, (0xB3 : U8)), (row + y, col + width - 1, 0xB3)]) =
      (List.range' 1 (height.toNat - 2)).flatMap fun y =>
        [boxPlace row col width height (y, 0),
          boxPlace row col width height (y, width.toNat - 1)] := by
    rw [List.flatMap_def, List.flatMap_def]
    refine congrArg _ (map_inside fun y hy₀ hy₁ => ?_)
    simp only [boxPlace, boxChar, hzero, hright, if_neg hy₀, if_neg hy₁]
  unfold boxCells boxOffsets
  rw [htop, hbottom, hsides]
  simp only [List.map_append, List.map_map, List.map_flatMap, List.map_cons, List.map_nil,
    Function.comp_def, hbelow, hright]
  simp only [boxPlace, boxChar, hzero, if_neg hw.1, if_pos hw.2, if_neg hh.1, if_pos hh.2, if_pos]

theorem mem_boxCells (hsize : 2 ≤ width.toNat ∧ 2 ≤ height.toNat) {p : Place} :
    p ∈ boxCells row col width height ↔
      ∃ y x, OnBorder width height y x ∧ p = boxPlace row col width height (y, x) := by
  rw [boxCells_eq_map hsize, List.mem_map]
  constructor
  · rintro ⟨⟨y, x⟩, hmem, rfl⟩
    exact ⟨y, x, (mem_boxOffsets hsize).mp hmem, rfl⟩
  · rintro ⟨y, x, hon, rfl⟩
    exact ⟨(y, x), (mem_boxOffsets hsize).mpr hon, rfl⟩

end Box

/-- From `s` to `t` the border of the rectangle has been drawn where it is on the screen, and nothing
else has changed. -/
structure Boxed (row col width height color : U8) (s t : Screen) : Prop where
  drawn : ∀ y x, OnBorder width height y x → row.toNat + y < 25 → col.toNat + x < 80 →
    t.buf (cell (row.toNat + y) (col.toNat + x)) = vgaEntry (boxChar width height y x) color
  frame : ∀ i, (∀ y x, OnBorder width height y x → row.toNat + y < 25 → col.toNat + x < 80 →
    i ≠ cell (row.toNat + y) (col.toNat + x)) → t.buf i = s.buf i

theorem Boxed.changesOnly {row col width height color : U8} {s t : Screen}
    (h : Boxed row col width height color s t) : ChangesOnly (InRect row col width height) s t := by
  intro i hi
  by_contra hout
  refine hi (h.frame i fun y x hon hr hc hcell => hout ?_)
  obtain ⟨⟨hy, hx⟩, -⟩ := hon
  exact ⟨_, _, hcell, ⟨hr, hc⟩, by omega, by omega⟩

/-- A place that `vga_putc_at` finds on the screen has not been narrowed. -/
def Fits (row col width height : U8) : Prop :=
  ∀ y x, OnBorder width height y x → (row + BitVec.ofNat 8 y).toNat < 25 →
    (col + BitVec.ofNat 8 x).toNat < 80 → row.toNat + y < 256 ∧ col.toNat + x < 256

theorem fits_of_le {row col width height : U8} (hrow : row.toNat + height.toNat ≤ 256)
    (hcol : col.toNat + width.toNat ≤ 256) : Fits row col width height := by
  rintro y x ⟨⟨hy, hx⟩, -⟩ - -
  omega

theorem toNat_add_ofNat (a : U8) {k : ℕ} (h : k < 256) :
    (a + BitVec.ofNat 8 k).toNat = (a.toNat + k) % 256 := by
  rw [BitVec.toNat_add, BitVec.toNat_ofNat, Nat.mod_eq_of_lt h]

theorem toNat_add_of_lt {a : U8} {k : ℕ} (h : a.toNat + k < 256) :
    (a + BitVec.ofNat 8 k).toNat = a.toNat + k := by
  rw [toNat_add_ofNat a (by omega), Nat.mod_eq_of_lt h]

section Box

variable {row col width height : U8}

theorem hits_boxPlace {y x : ℕ} (hr : row.toNat + y < 25) (hc : col.toNat + x < 80) :
    Hits (boxPlace row col width height (y, x)) (cell (row.toNat + y) (col.toNat + x)) := by
  have hr' : (row + BitVec.ofNat 8 y).toNat = row.toNat + y := toNat_add_of_lt (by omega)
  have hc' : (col + BitVec.ofNat 8 x).toNat = col.toNat + x := toNat_add_of_lt (by omega)
  exact ⟨⟨hr'.trans_lt hr, hc'.trans_lt hc⟩, congrArg₂ cell hr'.symm hc'.symm⟩

/-- When none is narrowed onto the screen, a place hits the cell where it should be. -/
theorem eq_cell_of_hits {y x i : ℕ} (hfits : Fits row col width height)
    (hon : OnBorder width height y x) (h : Hits (boxPlace row col width height (y, x)) i) :
    (row.toNat + y < 25 ∧ col.toNat + x < 80) ∧ i = cell (row.toNat + y) (col.toNat + x) := by
  obtain ⟨⟨hr, hc⟩, hcell⟩ := h
  obtain ⟨hrow, hcol⟩ := hfits y x hon hr hc
  have hr' : (row + BitVec.ofNat 8 y).toNat = row.toNat + y := toNat_add_of_lt hrow
  have hc' : (col + BitVec.ofNat 8 x).toNat = col.toNat + x := toNat_add_of_lt hcol
  exact ⟨⟨hr'.symm.trans_lt hr, hc'.symm.trans_lt hc⟩, hcell.trans (congrArg₂ cell hr' hc')⟩

/-- **The box.** Its border is drawn on the screen when no place of it is narrowed onto the screen. -/
theorem boxed_of_fits (hsize : 2 ≤ width.toNat ∧ 2 ≤ height.toNat) (hfits : Fits row col width height)
    (s : Screen) (color : U8) :
    Boxed row col width height color s (vgaDrawBox s row col width height color) := by
  rw [drawBox_eq_drawCells s color hsize]
  constructor
  · intro y x hon hr hc
    obtain ⟨q, hq, hhit, hbuf⟩ := buf_drawCells_hit
      ⟨_, (mem_boxCells hsize).mpr ⟨y, x, hon, rfl⟩, hits_boxPlace hr hc⟩ color
    -- no other place of the border hits this cell
    obtain ⟨y', x', hon', rfl⟩ := (mem_boxCells hsize).mp hq
    obtain ⟨⟨-, hc'⟩, hcell⟩ := eq_cell_of_hits hfits hon' hhit
    obtain ⟨hrows, hcols⟩ := cell_inj hc hc' hcell
    obtain rfl : y = y' := by omega
    obtain rfl : x = x' := by omega
    exact hbuf s
  · intro i hmiss
    refine buf_drawCells_miss (fun p hp hhit => ?_) s color
    obtain ⟨y, x, hon, rfl⟩ := (mem_boxCells hsize).mp hp
    obtain ⟨⟨hr, hc⟩, hcell⟩ := eq_cell_of_hits hfits hon hhit
    exact hmiss y x hon hr hc hcell

/-- A place narrowed onto the screen hits a cell above or left of the rectangle. -/
theorem ne_cell_of_narrowed {y x : ℕ} (hon : OnBorder width height y x)
    (hnarrow : ¬(row.toNat + y < 256 ∧ col.toNat + x < 256))
    (hc : (col + BitVec.ofNat 8 x).toNat < 80) {y' x' : ℕ} (hc' : col.toNat + x' < 80) :
    cell (row + BitVec.ofNat 8 y).toNat (col + BitVec.ofNat 8 x).toNat ≠
      cell (row.toNat + y') (col.toNat + x') := by
  intro hcell
  obtain ⟨hy, hx⟩ := hon.1
  have hheight := height.isLt
  have hwidth := width.isLt
  have hr₀ := row.isLt
  have hc₀ := col.isLt
  obtain ⟨hrows, hcols⟩ := cell_inj hc hc' hcell
  rw [toNat_add_ofNat _ (by omega)] at hrows hcols
  omega

/-- **Exactness.** On every screen the box is its border, exactly when no place of it is narrowed onto the
screen. -/
theorem boxed_iff_fits (hsize : 2 ≤ width.toNat ∧ 2 ≤ height.toNat) (color : U8) :
    (∀ s, Boxed row col width height color s (vgaDrawBox s row col width height color)) ↔
      Fits row col width height := by
  refine ⟨fun h y x hon hr hc => ?_, fun h s => boxed_of_fits hsize h s color⟩
  by_contra hnarrow
  obtain ⟨q, -, -, hbuf⟩ := buf_drawCells_hit
    ⟨_, (mem_boxCells hsize).mpr ⟨y, x, hon, rfl⟩, ⟨hr, hc⟩, rfl⟩ color
  -- the cell is none of the rectangle's, but it gets the same value on every screen
  have hkeep (s : Screen) := (h s).frame _ fun y' x' _ _ hc' => ne_cell_of_narrowed hon hnarrow hc hc'
  have hzero := hkeep (boot fun _ => 0)
  have hone := hkeep (boot fun _ => 1)
  rw [drawBox_eq_drawCells _ _ hsize] at hzero hone
  have heq : (0 : U16) = 1 := (hzero.symm.trans (hbuf _)).trans ((hbuf _).symm.trans hone)
  exact absurd heq (by decide)

end Box

/-! ## The two calls -/

/-- **Rectangles and boxes.** A filled rectangle changes only its cells on the screen. So does a box of
which no place is narrowed onto the screen, and it is drawn if it has two rows and two columns; a smaller
one is not. -/
theorem rect_and_box (s : Screen) (row col width height c color : U8) :
    ChangesOnly (InRect row col width height) s (vgaFillRect s row col width height c color) ∧
    (Fits row col width height →
      ChangesOnly (InRect row col width height) s (vgaDrawBox s row col width height color) ∧
      (2 ≤ width.toNat ∧ 2 ≤ height.toNat →
        Boxed row col width height color s (vgaDrawBox s row col width height color))) ∧
    (width.toNat < 2 ∨ height.toNat < 2 → vgaDrawBox s row col width height color = s) := by
  refine ⟨changesOnly_fillRect s row col width height c color, fun hfits => ⟨?_, fun hsize => ?_⟩,
    drawBox_of_lt_two s color⟩
  · by_cases hsize : 2 ≤ width.toNat ∧ 2 ≤ height.toNat
    · exact (boxed_of_fits hsize hfits s color).changesOnly
    · rw [drawBox_of_lt_two s color (by omega)]
      exact .refl s
  · exact boxed_of_fits hsize hfits s color

/-- A box of one cell is its own border, and is not drawn. -/
theorem not_boxed_single : OnBorder 1 1 0 0 ∧
    (vgaDrawBox (boot fun _ => 0) 0 0 1 1 0x07).buf (cell 0 0) = 0 ∧
    ¬Boxed 0 0 1 1 0x07 (boot fun _ => 0) (vgaDrawBox (boot fun _ => 0) 0 0 1 1 0x07) := by
  have hon : OnBorder 1 1 0 0 := ⟨⟨Nat.one_pos, Nat.one_pos⟩, .inl rfl⟩
  have hbuf : (vgaDrawBox (boot fun _ => 0) 0 0 1 1 0x07).buf (cell 0 0) = 0 := rfl
  refine ⟨hon, hbuf, fun h => ?_⟩
  have hdrawn := h.drawn 0 0 hon (by decide) (by decide)
  exact absurd (hbuf.symm.trans hdrawn) (by decide)

end BloodKernel.Vga
