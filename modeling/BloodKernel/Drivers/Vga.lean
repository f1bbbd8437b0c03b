import BloodKernel.Kernel.Types
import BloodKernel.Lib.Run
import Mathlib.Data.List.TakeWhile

set_option autoImplicit false

/-!
# The VGA text screen

`drivers/vga.c`: a cursor of two `u8`s on a screen of 80 columns and 25 rows. `Screen.log` records the
index of every store to `vga_buf`.

* `Draws`: only cells of the screen are stored to, and the cursor stays; `Safe`: a cursor that text
  can start from.
* `putc_safe`, `putc_onScreen`: one character; `puts_logged_iff`: a string, from any cursor.
* **`onScreen_throughout_iff`**: a run keeps its cursor and all its stores on the screen exactly when
  each `vga_puts_at` starts at a safe cursor, or its string moves there before it prints.
-/

namespace BloodKernel.Vga

open Lib

/-! ## The driver -/

/-- The memory from `0xB8000` on, the static variables, and the indices stored to. -/
structure Screen where
  buf : ℕ → U16
  row : U8
  col : U8
  color : U8
  log : List ℕ

def vgaEntry (c color : U8) : U16 := c.setWidth 16 ||| (color.setWidth 16 <<< 8)

/-- `vga_buf[i] = v`. -/
def store (s : Screen) (i : ℕ) (v : U16) : Screen :=
  { s with buf := Function.update s.buf i v, log := s.log ++ [i] }

/-- The index of the cell under the cursor. -/
def Screen.pos (s : Screen) : ℕ := s.row.toNat * 80 + s.col.toNat

def moveUp (s : Screen) : Screen :=
  (List.range (2000 - 80)).foldl (fun s i => store s i (s.buf (i + 80))) s

def clearLast (s : Screen) : Screen :=
  (List.range 80).foldl (fun s x => store s (24 * 80 + x) (vgaEntry 0x20 s.color)) s

def vgaScroll (s : Screen) : Screen := { clearLast (moveUp s) with row := 24 }

/-- Fill the screen with blanks. -/
def blank (s : Screen) : Screen :=
  (List.range 2000).foldl (fun s i => store s i (vgaEntry 0x20 s.color)) s

def vgaInit (s : Screen) : Screen := blank { s with row := 0, col := 0, color := 0x07 }

def vgaSetColor (s : Screen) (fg bg : U8) : Screen := { s with color := fg ||| (bg <<< 4) }

/-- `if (vga_row >= VGA_HEIGHT) vga_scroll()`. -/
def wrapRow (s : Screen) : Screen := if 25 ≤ s.row.toNat then vgaScroll s else s

def nextRow (s : Screen) : Screen := wrapRow { s with col := 0, row := s.row + 1 }

/-- On to the next row when the cursor is past the last column. -/
def wrapCol (s : Screen) : Screen := if 80 ≤ s.col.toNat then nextRow s else s

/-- Put a character under the cursor. -/
def put (s : Screen) (c : U8) : Screen := store s s.pos (vgaEntry c s.color)

def vgaPutc (s : Screen) (c : U8) : Screen :=
  if c = 0x0A then nextRow s
  else if c = 0x0D then { s with col := 0 }
  else if c = 0x09 then wrapCol { s with col := (s.col + 8) &&& ~~~7 }
  else if c = 0x08 then if 0 < s.col.toNat then put { s with col := s.col - 1 } 0x20 else s
  else wrapCol { put s c with col := s.col + 1 }

/-- `vga_puts`: the characters up to a zero. -/
def vgaPuts (s : Screen) : List U8 → Screen
  | [] => s
  | c :: str => if c = 0 then s else vgaPuts (vgaPutc s c) str

def vgaClear (s : Screen) : Screen := blank { s with row := 0, col := 0 }

def vgaSetCursor (s : Screen) (row col : U8) : Screen :=
  if row.toNat < 25 ∧ col.toNat < 80 then { s with row := row, col := col } else s

def vgaPutcAt (s : Screen) (c row col color : U8) : Screen :=
  if row.toNat < 25 ∧ col.toNat < 80 then store s (row.toNat * 80 + col.toNat) (vgaEntry c color)
  else s

def vgaPutsAt (s : Screen) (str : List U8) (row col color : U8) : Screen :=
  let t := vgaPuts { s with row := row, col := col, color := color } str
  { t with row := s.row, col := s.col, color := s.color }

/-- `for (x = 0; x < n && first + x < bound; x++)`. -/
def clipped (first n : U8) (bound : ℕ) : List ℕ :=
  (List.range n.toNat).takeWhile fun x => first.toNat + x < bound

def vgaFillRect (s : Screen) (row col width height c color : U8) : Screen :=
  (clipped row height 25).foldl (fun s y =>
    (clipped col width 80).foldl (fun s x =>
      store s ((row.toNat + y) * 80 + (col.toNat + x)) (vgaEntry c color)) s) s

/-- A side of a box: a character at each of some cells. -/
def border (s : Screen) (c color : U8) (cells : List (U8 × U8)) : Screen :=
  cells.foldl (fun s cell => vgaPutcAt s c cell.1 cell.2 color) s

/-- `for (x = 1; x < n - 1; x++)`. -/
def inside (n : U8) : List U8 := (List.range' 1 (n.toNat - 2)).map (BitVec.ofNat 8)

def vgaDrawBox (s : Screen) (row col width height color : U8) : Screen :=
  if width.toNat < 2 ∨ height.toNat < 2 then s
  else
    let s := vgaPutcAt s 0xDA row col color
    let s := border s 0xC4 color ((inside width).map fun x => (row, col + x))
    let s := vgaPutcAt s 0xBF row (col + width - 1) color
    let s := (inside height).foldl (fun s y =>
      vgaPutcAt (vgaPutcAt s 0xB3 (row + y) col color) 0xB3 (row + y) (col + width - 1) color) s
    let s := vgaPutcAt s 0xC0 (row + height - 1) col color
    let s := border s 0xC4 color ((inside width).map fun x => (row + height - 1, col + x))
    vgaPutcAt s 0xD9 (row + height - 1) (col + width - 1) color

inductive Op
  | init
  | setColor (fg bg : U8)
  | putc (c : U8)
  | puts (str : List U8)
  | clear
  | setCursor (row col : U8)
  | putcAt (c row col color : U8)
  | putsAt (str : List U8) (row col color : U8)
  | fillRect (row col width height c color : U8)
  | drawBox (row col width height color : U8)

def step (s : Screen) : Op → Unit × Screen
  | .init => ((), vgaInit s)
  | .setColor fg bg => ((), vgaSetColor s fg bg)
  | .putc c => ((), vgaPutc s c)
  | .puts str => ((), vgaPuts s str)
  | .clear => ((), vgaClear s)
  | .setCursor row col => ((), vgaSetCursor s row col)
  | .putcAt c row col color => ((), vgaPutcAt s c row col color)
  | .putsAt str row col color => ((), vgaPutsAt s str row col color)
  | .fillRect row col width height c color => ((), vgaFillRect s row col width height c color)
  | .drawBox row col width height color => ((), vgaDrawBox s row col width height color)

/-! ## Stores -/

/-- From `s` to `t` the indices stored to satisfy `P`. -/
def Grows (P : ℕ → Prop) (s t : Screen) : Prop := ∃ is, t.log = s.log ++ is ∧ ∀ i ∈ is, P i

/-- The index of a cell of the screen. -/
def OnScreen (i : ℕ) : Prop := i < 2000

/-- All stores have been to cells of the screen. -/
def Screen.Logged (s : Screen) : Prop := ∀ i ∈ s.log, OnScreen i

variable {P : ℕ → Prop}

theorem Grows.refl (s : Screen) : Grows P s s :=
  ⟨[], (List.append_nil _).symm, fun _ h => absurd h List.not_mem_nil⟩

theorem Grows.trans {s t u : Screen} (h₁ : Grows P s t) (h₂ : Grows P t u) : Grows P s u := by
  obtain ⟨is, hi, hP⟩ := h₁
  obtain ⟨js, hj, hQ⟩ := h₂
  refine ⟨is ++ js, by rw [hj, hi, List.append_assoc], fun i h => ?_⟩
  rcases List.mem_append.mp h with h | h
  · exact hP i h
  · exact hQ i h

theorem Grows.congr {s s' t t' : Screen} (h : Grows P s t) (hs : s'.log = s.log)
    (ht : t'.log = t.log) : Grows P s' t' := by
  unfold Grows
  rw [hs, ht]
  exact h

theorem Grows.mono {Q : ℕ → Prop} {s t : Screen} (h : Grows P s t) (hPQ : ∀ i, P i → Q i) :
    Grows Q s t := by
  obtain ⟨is, hi, hP⟩ := h
  exact ⟨is, hi, fun i hmem => hPQ i (hP i hmem)⟩

theorem Grows.logged {s t : Screen} (h : Grows P s t) (ht : t.Logged) : s.Logged := by
  obtain ⟨is, hi, -⟩ := h
  exact fun i hmem => ht i (hi ▸ List.mem_append_left is hmem)

theorem Grows.logged_iff {s t : Screen} (h : Grows OnScreen s t) : t.Logged ↔ s.Logged := by
  refine ⟨h.logged, fun hs i hmem => ?_⟩
  obtain ⟨is, hi, hP⟩ := h
  rcases List.mem_append.mp (hi ▸ hmem) with h | h
  · exact hs i h
  · exact hP i h

theorem grows_store {s : Screen} {i : ℕ} (v : U16) (h : P i) : Grows P s (store s i v) :=
  ⟨[i], rfl, fun _ hj => List.mem_singleton.mp hj ▸ h⟩

/-- From `s` to `t` the cursor stays, and the indices stored to satisfy `P`. -/
structure Draws (P : ℕ → Prop) (s t : Screen) : Prop where
  row_eq : t.row = s.row
  col_eq : t.col = s.col
  grows : Grows P s t

theorem Draws.refl (s : Screen) : Draws P s s := ⟨rfl, rfl, .refl s⟩

theorem Draws.trans {s t u : Screen} (h₁ : Draws P s t) (h₂ : Draws P t u) : Draws P s u :=
  ⟨h₂.row_eq.trans h₁.row_eq, h₂.col_eq.trans h₁.col_eq, h₁.grows.trans h₂.grows⟩

theorem draws_store {s : Screen} {i : ℕ} (v : U16) (h : P i) : Draws P s (store s i v) :=
  ⟨rfl, rfl, grows_store v h⟩

theorem draws_foldl {α : Type} {f : Screen → α → Screen} {l : List α}
    (h : ∀ s, ∀ a ∈ l, Draws P s (f s a)) (s : Screen) : Draws P s (l.foldl f s) :=
  foldl_of_trans .refl (fun _ _ _ => .trans) h s

theorem draws_blank (s : Screen) : Draws OnScreen s (blank s) := by
  refine draws_foldl (fun s i hi => draws_store _ ?_) s
  exact List.mem_range.mp hi

theorem draws_putcAt (s : Screen) (c row col color : U8) :
    Draws OnScreen s (vgaPutcAt s c row col color) := by
  unfold vgaPutcAt
  split_ifs with h
  · exact draws_store _ (show _ < 2000 by omega)
  · exact .refl s

theorem mem_clipped {first n : U8} {bound x : ℕ} (h : x ∈ clipped first n bound) :
    first.toNat + x < bound := by
  simpa using List.mem_takeWhile_imp h

theorem draws_fillRect (s : Screen) (row col width height c color : U8) :
    Draws OnScreen s (vgaFillRect s row col width height c color) := by
  refine draws_foldl (fun s y hy => draws_foldl (fun s x hx => draws_store _ ?_) s) s
  have hy := mem_clipped hy
  have hx := mem_clipped hx
  show _ < 2000
  omega

theorem draws_border (s : Screen) (c color : U8) (cells : List (U8 × U8)) :
    Draws OnScreen s (border s c color cells) :=
  draws_foldl (fun s cell _ => draws_putcAt s c cell.1 cell.2 color) s

theorem draws_drawBox (s : Screen) (row col width height color : U8) :
    Draws OnScreen s (vgaDrawBox s row col width height color) := by
  unfold vgaDrawBox
  split_ifs
  · exact .refl s
  · have hsides : ∀ s : Screen, Draws OnScreen s ((inside height).foldl (fun s y =>
        vgaPutcAt (vgaPutcAt s 0xB3 (row + y) col color) 0xB3 (row + y) (col + width - 1) color) s) :=
      draws_foldl fun s _ _ => (draws_putcAt s _ _ _ _).trans (draws_putcAt _ _ _ _ _)
    exact (draws_putcAt s _ _ _ _).trans <| (draws_border _ _ _ _).trans <|
      (draws_putcAt _ _ _ _ _).trans <| (hsides _).trans <| (draws_putcAt _ _ _ _ _).trans <|
      (draws_border _ _ _ _).trans (draws_putcAt _ _ _ _ _)

/-! ## Text -/

/-- A cursor that text can start from: the cell under it is on the screen, in one of its rows. -/
def Safe (row col : U8) : Prop := row.toNat < 25 ∧ row.toNat * 80 + col.toNat < 2000

/-- The cursor is in one of the 25 rows and 80 columns. -/
def Screen.InRange (s : Screen) : Prop := s.row.toNat < 25 ∧ s.col.toNat < 80

theorem Screen.InRange.safe {s : Screen} (h : s.InRange) : Safe s.row s.col := by
  obtain ⟨hr, hc⟩ := h
  exact ⟨hr, by omega⟩

theorem draws_moveUp (s : Screen) : Draws OnScreen s (moveUp s) := by
  refine draws_foldl (fun s i hi => draws_store _ ?_) s
  have := List.mem_range.mp hi
  show i < 2000
  omega

theorem draws_clearLast (s : Screen) : Draws OnScreen s (clearLast s) := by
  refine draws_foldl (fun s x hx => draws_store _ ?_) s
  have := List.mem_range.mp hx
  show 24 * 80 + x < 2000
  omega

theorem scroll_fields (s : Screen) : (vgaScroll s).row = 24 ∧ (vgaScroll s).col = s.col ∧
    (vgaScroll s).log = (clearLast (moveUp s)).log := by
  have hdraws := (draws_moveUp s).trans (draws_clearLast _)
  unfold vgaScroll
  generalize clearLast (moveUp s) = t at hdraws ⊢
  exact ⟨rfl, hdraws.col_eq, rfl⟩

theorem zero_lt_height : (0 : U8).toNat < 25 := by decide

theorem zero_lt_width : (0 : U8).toNat < 80 := by decide

theorem nextRow_inRange (s : Screen) : (nextRow s).InRange ∧ Grows OnScreen s (nextRow s) := by
  unfold nextRow wrapRow
  split_ifs with h
  · have hdraws := (draws_moveUp { s with col := 0, row := s.row + 1 }).trans (draws_clearLast _)
    obtain ⟨hrow, hcol, hlog⟩ := scroll_fields { s with col := 0, row := s.row + 1 }
    refine ⟨⟨?_, ?_⟩, hdraws.grows.congr rfl hlog⟩
    · rw [hrow]
      decide
    · rw [hcol]
      exact zero_lt_width
  · exact ⟨⟨Nat.lt_of_not_le h, zero_lt_width⟩, .refl s⟩

/-- A cursor in one of the rows is put in range by going on to the next row past the last column. -/
theorem wrapCol_inRange {s : Screen} (h : s.row.toNat < 25) :
    (wrapCol s).InRange ∧ Grows OnScreen s (wrapCol s) := by
  unfold wrapCol
  split_ifs with hcol
  · exact nextRow_inRange s
  · exact ⟨⟨h, Nat.lt_of_not_le hcol⟩, .refl s⟩

theorem toNat_pred {v : U8} (h : 0 < v.toNat) : (v - 1).toNat = v.toNat - 1 := by
  have h₁ : (1 : U8).toNat = 1 := rfl
  have := v.isLt
  rw [BitVec.toNat_sub, h₁]
  omega

/-- **One character** from a safe cursor. -/
theorem putc_safe {s : Screen} (h : Safe s.row s.col) (c : U8) :
    Safe (vgaPutc s c).row (vgaPutc s c).col ∧ Grows OnScreen s (vgaPutc s c) := by
  obtain ⟨hr, hp⟩ := h
  unfold vgaPutc
  split_ifs with h₁ h₂ h₃ h₄ h₅
  · have hnext := nextRow_inRange s
    exact ⟨hnext.1.safe, hnext.2⟩
  · exact ⟨⟨hr, show s.row.toNat * 80 + 0 < 2000 by omega⟩, .refl s⟩
  · have hwrap := wrapCol_inRange (s := { s with col := (s.col + 8) &&& ~~~7 }) hr
    exact ⟨hwrap.1.safe, hwrap.2⟩
  · have hpos : s.row.toNat * 80 + (s.col - 1).toNat < 2000 := by
      rw [toNat_pred h₅]
      omega
    exact ⟨⟨hr, hpos⟩, grows_store (P := OnScreen) (s := { s with col := s.col - 1 }) _ hpos⟩
  · exact ⟨⟨hr, hp⟩, .refl s⟩
  · have hwrap := wrapCol_inRange (s := { put s c with col := s.col + 1 }) hr
    have hput : Grows OnScreen s (put s c) := grows_store _ hp
    exact ⟨hwrap.1.safe, (hput.congr rfl rfl).trans hwrap.2⟩

theorem putc_inRange {s : Screen} (h : s.InRange) (c : U8) : (vgaPutc s c).InRange := by
  obtain ⟨hr, hc⟩ := h
  unfold vgaPutc
  split_ifs with h₁ h₂ h₃ h₄ h₅
  · exact (nextRow_inRange s).1
  · exact ⟨hr, zero_lt_width⟩
  · exact (wrapCol_inRange (s := { s with col := (s.col + 8) &&& ~~~7 }) hr).1
  · refine ⟨hr, ?_⟩
    show (s.col - 1).toNat < 80
    rw [toNat_pred h₅]
    omega
  · exact ⟨hr, hc⟩
  · exact (wrapCol_inRange (s := { put s c with col := s.col + 1 }) hr).1

/-- **A string** from a safe cursor. -/
theorem puts_safe {s : Screen} (h : Safe s.row s.col) (str : List U8) :
    Grows OnScreen s (vgaPuts s str) := by
  induction str generalizing s with
  | nil => exact .refl s
  | cons c str ih =>
      unfold vgaPuts
      split_ifs
      · exact .refl s
      · obtain ⟨hsafe, hgrows⟩ := putc_safe h c
        exact hgrows.trans (ih hsafe)

theorem puts_inRange {s : Screen} (h : s.InRange) (str : List U8) : (vgaPuts s str).InRange := by
  induction str generalizing s with
  | nil => exact h
  | cons c str ih =>
      unfold vgaPuts
      split_ifs
      · exact h
      · exact ih (putc_inRange h c)

theorem nextRow_grows (s : Screen) : Grows (fun _ => True) s (nextRow s) :=
  (nextRow_inRange s).2.mono fun _ _ => trivial

theorem wrapCol_grows (s : Screen) : Grows (fun _ => True) s (wrapCol s) := by
  unfold wrapCol
  split_ifs
  · exact nextRow_grows s
  · exact .refl s

theorem putc_grows (s : Screen) (c : U8) : Grows (fun _ => True) s (vgaPutc s c) := by
  have hput (s : Screen) (c : U8) : Grows (fun _ => True) s (put s c) := grows_store _ trivial
  unfold vgaPutc
  split_ifs
  · exact nextRow_grows s
  · exact .refl s
  · exact (wrapCol_grows { s with col := (s.col + 8) &&& ~~~7 }).congr rfl rfl
  · exact (hput { s with col := s.col - 1 } 0x20).congr rfl rfl
  · exact .refl s
  · exact ((hput s c).congr rfl rfl).trans (wrapCol_grows _)

theorem puts_grows (s : Screen) (str : List U8) : Grows (fun _ => True) s (vgaPuts s str) := by
  induction str generalizing s with
  | nil => exact .refl s
  | cons c str ih =>
      unfold vgaPuts
      split_ifs
      · exact .refl s
      · exact (putc_grows s c).trans (ih _)

/-- From this cursor the string prints on the screen only: the cursor is safe, or control characters
make it so before anything is printed. A newline always does; a carriage return and a tab within the
row go on in the same row; a backspace must land on the screen. -/
def Harmless (row col : U8) : List U8 → Prop
  | [] => True
  | c :: str =>
      Safe row col ∨ c = 0 ∨ c = 0x0A ∨ (c = 0x0D ∧ Harmless row 0 str) ∨
        (c = 0x09 ∧ (80 ≤ ((col + 8) &&& ~~~7).toNat ∨ Harmless row ((col + 8) &&& ~~~7) str)) ∨
        (c = 0x08 ∧ (if 0 < col.toNat then Safe row (col - 1) else Harmless row col str))

theorem not_logged_of_put {s t : Screen} (h : ¬Safe s.row s.col) (c : U8)
    (ht : Grows (fun _ => True) (put s c) t) : ¬t.Logged := by
  intro hlogged
  have hpos : s.pos < 2000 := ht.logged hlogged _ (List.mem_append_right _ (List.mem_singleton.mpr rfl))
  unfold Screen.pos at hpos
  exact h ⟨by omega, hpos⟩

theorem puts_nextRow_logged {s : Screen} (hs : s.Logged) (str : List U8) : (vgaPuts (nextRow s) str).Logged := by
  obtain ⟨hin, hgrows⟩ := nextRow_inRange s
  exact (puts_safe hin.safe _).logged_iff.mpr (hgrows.logged_iff.mpr hs)

theorem puts_put_logged_iff {s : Screen} (hs : s.Logged) (c : U8) (str : List U8) :
    (vgaPuts (put s c) str).Logged ↔ Safe s.row s.col := by
  by_cases hsafe : Safe s.row s.col
  · have hput : Grows OnScreen s (put s c) := grows_store _ hsafe.2
    have hrest := puts_safe (s := put s c) hsafe str
    exact iff_of_true (hrest.logged_iff.mpr (hput.logged_iff.mpr hs)) hsafe
  · exact iff_of_false (not_logged_of_put hsafe c (puts_grows _ _)) hsafe

/-- **A string from any cursor.** -/
theorem puts_logged_iff {s : Screen} (hs : s.Logged) (str : List U8) :
    (vgaPuts s str).Logged ↔ Harmless s.row s.col str := by
  induction str generalizing s with
  | nil => exact iff_of_true hs trivial
  | cons c str ih =>
      by_cases hsafe : Safe s.row s.col
      · exact iff_of_true ((puts_safe hsafe _).logged_iff.mpr hs) (.inl hsafe)
      · rw [vgaPuts]
        by_cases h0 : c = 0
        · rw [if_pos h0]
          exact iff_of_true hs (.inr (.inl h0))
        rw [if_neg h0, vgaPutc]
        by_cases hnl : c = 0x0A
        · rw [if_pos hnl]
          exact iff_of_true (puts_nextRow_logged hs str) (.inr (.inr (.inl hnl)))
        rw [if_neg hnl]
        by_cases hcr : c = 0x0D
        · rw [if_pos hcr, ih (s := { s with col := 0 }) hs]
          subst hcr
          simp [Harmless, hsafe]
        rw [if_neg hcr]
        by_cases htab : c = 0x09
        · rw [if_pos htab, wrapCol]
          subst htab
          split_ifs with hcol
          · have hs' : ({ s with col := (s.col + 8) &&& ~~~7 } : Screen).Logged := hs
            exact iff_of_true (puts_nextRow_logged hs' str) (.inr (.inr (.inr (.inr (.inl ⟨rfl, .inl hcol⟩)))))
          · have hbs : ¬(0x09 : U8) = 0x08 := by decide
            rw [ih (s := { s with col := (s.col + 8) &&& ~~~7 }) hs, Harmless]
            simp only [hsafe, hcol, h0, hnl, hcr, hbs, false_or, false_and, or_false, true_and]
        rw [if_neg htab]
        by_cases hbs : c = 0x08
        · rw [if_pos hbs]
          subst hbs
          have hiff : Harmless s.row s.col (0x08 :: str) ↔
              if 0 < s.col.toNat then Safe s.row (s.col - 1) else Harmless s.row s.col str := by
            rw [Harmless]
            simp only [hsafe, h0, hnl, hcr, htab, false_or, false_and, true_and]
          rw [hiff]
          split_ifs with hcol
          · exact puts_put_logged_iff (s := { s with col := s.col - 1 }) hs 0x20 str
          · exact ih hs
        · -- a printed character, off the screen
          rw [if_neg hbs]
          have hwrap : Grows (fun _ => True) (put s c) (wrapCol { put s c with col := s.col + 1 }) :=
            (wrapCol_grows { put s c with col := s.col + 1 }).congr rfl rfl
          refine iff_of_false (not_logged_of_put hsafe c (hwrap.trans (puts_grows _ _))) fun h => ?_
          rw [Harmless] at h
          simp only [hsafe, h0, hnl, hcr, htab, hbs, false_or, false_and] at h

/-! ## Runs -/

/-- The state at boot, with nothing stored yet. -/
def boot (buf : ℕ → U16) : Screen := { buf, row := 0, col := 0, color := 0x07, log := [] }

/-- The cursor is on the screen, and so have been all stores. -/
def Screen.Ok (s : Screen) : Prop := s.InRange ∧ s.Logged

/-- The only text that can leave the screen is that of `vga_puts_at`, whose coordinates nobody
checks. -/
def Op.Plain : Op → Prop
  | .putsAt str row col _ => Harmless row col str
  | _ => True

/-- What only draws, or moves the cursor into range, keeps a screen as it should be. -/
theorem Screen.Ok.next {s t : Screen} (h : s.Ok) (ht : t.InRange) (hgrows : Grows OnScreen s t) :
    t.Ok :=
  ⟨ht, hgrows.logged_iff.mpr h.2⟩

theorem Draws.inRange {s t : Screen} (h : Draws P s t) (hs : s.InRange) : t.InRange := by
  unfold Screen.InRange
  rw [h.row_eq, h.col_eq]
  exact hs

theorem Screen.Ok.draw {s t : Screen} (h : s.Ok) (hdraws : Draws OnScreen s t) : t.Ok :=
  h.next (hdraws.inRange h.1) hdraws.grows

/-- Blanking the screen with the cursor at its first cell. -/
theorem Screen.Ok.home {s : Screen} (h : s.Ok) (color : U8) :
    (blank { s with row := 0, col := 0, color := color }).Ok := by
  have hin : ({ s with row := 0, col := 0, color := color } : Screen).InRange :=
    ⟨zero_lt_height, zero_lt_width⟩
  exact Screen.Ok.draw (s := { s with row := 0, col := 0, color := color }) ⟨hin, h.2⟩ (draws_blank _)

theorem putsAt_ok_iff {s : Screen} (h : s.Ok) (str : List U8) (row col color : U8) :
    (vgaPutsAt s str row col color).Ok ↔ Harmless row col str := by
  have hlogged : (vgaPutsAt s str row col color).Logged ↔ Harmless row col str :=
    puts_logged_iff (s := { s with row := row, col := col, color := color }) h.2 str
  exact ⟨fun ht => hlogged.mp ht.2, fun hp => ⟨h.1, hlogged.mpr hp⟩⟩

/-- **One operation.** From a screen as it should be, an operation leaves it so exactly when it is a
plain one. -/
theorem ok_step {s : Screen} (h : s.Ok) (op : Op) : (step s op).2.Ok ↔ op.Plain := by
  cases op with
  | putsAt str row col color => exact putsAt_ok_iff h str row col color
  | init =>
      simp only [step, vgaInit]
      exact iff_of_true (h.home 0x07) trivial
  | clear =>
      simp only [step, vgaClear]
      exact iff_of_true (h.home s.color) trivial
  | setColor fg bg => exact iff_of_true h trivial
  | putc c => exact iff_of_true (h.next (putc_inRange h.1 c) (putc_safe h.1.safe c).2) trivial
  | puts str => exact iff_of_true (h.next (puts_inRange h.1 str) (puts_safe h.1.safe str)) trivial
  | setCursor row col =>
      refine iff_of_true ?_ trivial
      show (vgaSetCursor s row col).Ok
      unfold vgaSetCursor
      split_ifs with hin
      · exact ⟨hin, h.2⟩
      · exact h
  | putcAt c row col color => exact iff_of_true (h.draw (draws_putcAt s c row col color)) trivial
  | fillRect row col width height c color =>
      exact iff_of_true (h.draw (draws_fillRect s row col width height c color)) trivial
  | drawBox row col width height color =>
      exact iff_of_true (h.draw (draws_drawBox s row col width height color)) trivial

/-- **Exactness.** The cursor and all stores are on the screen throughout a run exactly when all its
operations are plain ones. -/
theorem onScreen_throughout_iff {buf : ℕ → U16} {t : Screen} {es : List (Op × Unit)}
    (h : Run (total step) (boot buf) es t) :
    Throughout (total step) Screen.Ok (boot buf) es ↔
      Along (total step) (fun _ e => e.1.Plain) (boot buf) es := by
  have hboot : (boot buf).Ok := ⟨⟨zero_lt_height, zero_lt_width⟩, fun _ h => absurd h List.not_mem_nil⟩
  have hstep : ∀ s op r s', True → s.Ok → total step s op = some (r, s') → (s'.Ok ↔ op.Plain) := by
    intro s op r s' _ hs hstep
    have hs' : (step s op).2 = s' := congrArg Prod.snd (total_eq_some.mp hstep)
    rw [← hs']
    exact ok_step hs op
  exact h.throughout_iff_along (I := fun _ => True) (fun _ _ _ _ _ _ => trivial) hstep trivial hboot

/-- One letter on row 30. -/
def belowScreen : List (Op × Unit) := [(.putsAt [0x41] 30 0 0x07, ())]

theorem run_belowScreen (buf : ℕ → U16) :
    Run (total step) (boot buf) belowScreen (vgaPutsAt (boot buf) [0x41] 30 0 0x07) :=
  .cons rfl (.nil _)

/-- The letter is stored at index 2400. -/
theorem not_onScreen_belowScreen :
    Run (total step) (boot fun _ => 0) belowScreen (vgaPutsAt (boot fun _ => 0) [0x41] 30 0 0x07) ∧
      2400 ∈ (vgaPutsAt (boot fun _ => 0) [0x41] 30 0 0x07).log ∧
      ¬(vgaPutsAt (boot fun _ => 0) [0x41] 30 0 0x07).Ok := by
  have hlog : 2400 ∈ (vgaPutsAt (boot fun _ => 0) [0x41] 30 0 0x07).log := by
    simp [vgaPutsAt, vgaPuts, vgaPutc, wrapCol, put, store, boot, Screen.pos]
  exact ⟨run_belowScreen _, hlog, fun h => absurd (h.2 2400 hlog) (by unfold OnScreen; omega)⟩

theorem onScreen_belowScreen :
    Throughout (total step) Screen.Ok (boot fun _ => 0) belowScreen ↔
      Along (total step) (fun _ e => e.1.Plain) (boot fun _ => 0) belowScreen :=
  onScreen_throughout_iff (run_belowScreen _)

end BloodKernel.Vga
