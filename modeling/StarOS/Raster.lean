/-
Loops that change the cells of an image.

An image is a list of cells, row after row, and a loop over rows and columns changes the cells of a
rectangle one at a time, with an access outside the image as a panic.  A step that changes only the
cells of which a predicate holds, each by a function of its index and its value, is
`Raster.mapWhere`; loops over such steps are such a step again, so that a nest of loops is read as
one change of a region.

* `Raster.forRange`, `Raster.forWhile` — `for i in lo..hi`, without and with a `break`;
* `Raster.mapWhere`, `Raster.copySlice` — changes of a region, and the copy of a slice;
* `Raster.forRange_keeps`, `Raster.forWhile_keeps` — what each step of a loop keeps, the loop keeps;
* `Raster.forRange_mapWhere` — a loop whose steps change different cells;
* `Raster.forRange_cells`, `Raster.forRange_rows` — a row, and rows one after the other;
* `Raster.forRange_rect` — a rectangle;
* `Raster.foldlM_mapIdx` — several changes of the whole image.
-/

import StarOS.Shifts
import Mathlib.Data.List.Induction

set_option autoImplicit false

namespace Raster

open Shifts

universe u v

variable {α : Type u} {σ : Type v}

/-- `for i in lo..hi { body(i) }`. -/
def forRange (body : ℕ → σ → Option σ) (lo hi : ℕ) (s : σ) : Option σ :=
  (List.range' lo (hi - lo)).foldlM (fun s i => body i s) s

/-- `for i in lo..hi { if !cont(i) { break; } body(i) }`. -/
def forWhile (cont : ℕ → Bool) (body : ℕ → σ → Option σ) (lo hi : ℕ) (s : σ) : Option σ :=
  ((List.range' lo (hi - lo)).takeWhile cont).foldlM (fun s i => body i s) s

/-- `buf[base..base + src.len()].copy_from_slice(src)`. -/
def copySlice (buf : List α) (base : ℕ) (src : List α) : Option (List α) :=
  if base + src.length ≤ buf.length then
    some (buf.take base ++ (src ++ buf.drop (base + src.length)))
  else none

/-- The cells with a property are changed, each by a function of its index and value. -/
def mapWhere (p : ℕ → Prop) [DecidablePred p] (g : ℕ → α → α) (buf : List α) : List α :=
  buf.mapIdx fun i a => if p i then g i a else a

section Regions

variable {p q : ℕ → Prop} [DecidablePred p] [DecidablePred q] {g : ℕ → α → α} {buf : List α}

@[simp]
theorem length_mapWhere : (mapWhere p g buf).length = buf.length := List.length_mapIdx

theorem getElem?_mapWhere (i : ℕ) :
    (mapWhere p g buf)[i]? = buf[i]?.map fun a => if p i then g i a else a := List.getElem?_mapIdx

theorem mapWhere_congr (h : ∀ i < buf.length, (p i ↔ q i)) :
    mapWhere p g buf = mapWhere q g buf := by
  refine List.ext_getElem? fun i => ?_
  rw [getElem?_mapWhere, getElem?_mapWhere]
  by_cases hi : i < buf.length
  · simp only [h i hi]
  · rw [List.getElem?_eq_none (Nat.le_of_not_lt hi), Option.map_none, Option.map_none]

/-- Nothing is changed if no cell with the property is. -/
theorem mapWhere_id (h : ∀ i a, p i → buf[i]? = some a → g i a = a) : mapWhere p g buf = buf := by
  refine List.ext_getElem? fun i => ?_
  rw [getElem?_mapWhere]
  cases hget : buf[i]? with
  | none => rfl
  | some a =>
      rw [Option.map_some]
      by_cases hp : p i
      · rw [if_pos hp, h i a hp hget]
      · rw [if_neg hp]

/-- One change after the other, of different cells. -/
theorem mapWhere_mapWhere (h : ∀ i, p i → ¬q i) :
    mapWhere q g (mapWhere p g buf) = mapWhere (fun i => p i ∨ q i) g buf := by
  refine List.ext_getElem? fun i => ?_
  rw [getElem?_mapWhere, getElem?_mapWhere, getElem?_mapWhere, Option.map_map]
  refine congrArg (fun f => Option.map f buf[i]?) (funext fun a => ?_)
  by_cases hp : p i
  · simp [hp, h i hp]
  · simp [hp]

/-- A write to one cell. -/
theorem setCell_eq {i : ℕ} {a b : α} (hget : buf[i]? = some a) (hg : g i a = b) :
    setCell buf i b = some (mapWhere (fun k => k = i) g buf) := by
  obtain ⟨hlt, -⟩ := List.getElem?_eq_some_iff.1 hget
  rw [setCell, if_pos hlt]
  refine congrArg some (List.ext_getElem? fun k => ?_)
  rw [getElem?_mapWhere, List.getElem?_set]
  by_cases hk : i = k
  · subst hk
    rw [if_pos rfl, if_pos hlt, hget, Option.map_some, if_pos rfl, hg]
  · rw [if_neg hk]
    cases buf[k]? with
    | none => rfl
    | some c => rw [Option.map_some, if_neg (Ne.symm hk)]

/-- A copied slice. -/
theorem copySlice_eq {base : ℕ} {src : List α} (hle : base + src.length ≤ buf.length)
    (hg : ∀ i a, i < src.length → buf[base + i]? = some a → src[i]? = some (g (base + i) a)) :
    copySlice buf base src =
      some (mapWhere (fun k => base ≤ k ∧ k < base + src.length) g buf) := by
  rw [copySlice, if_pos hle]
  refine congrArg some (List.ext_getElem? fun k => ?_)
  have htake : (buf.take base).length = base := List.length_take_of_le (by omega)
  rw [getElem?_mapWhere]
  by_cases hlt : k < base
  · rw [List.getElem?_append_left (by rw [htake]; exact hlt), List.getElem?_take_of_lt hlt]
    simp [Nat.not_le_of_lt hlt]
  · rw [List.getElem?_append_right (by rw [htake]; exact Nat.le_of_not_lt hlt), htake]
    by_cases hsrc : k < base + src.length
    · have hk : k < buf.length := by omega
      have hsplit : base + (k - base) = k := by omega
      have hcell := hg (k - base) buf[k] (by omega)
        (by rw [hsplit]; exact List.getElem?_eq_getElem hk)
      rw [List.getElem?_append_left (by omega), hcell, hsplit, List.getElem?_eq_getElem hk,
        Option.map_some, if_pos ⟨Nat.le_of_not_lt hlt, hsrc⟩]
    · have hback : base + src.length + (k - base - src.length) = k := by omega
      rw [List.getElem?_append_right (by omega), List.getElem?_drop, hback]
      simp [hsrc]

end Regions

/-! ### Loops -/

section Keeps

variable {P : σ → Prop} {s s' : σ}

/-- What each step of a loop keeps, the loop keeps. -/
theorem foldlM_keeps {β : Type*} {body : σ → β → Option σ}
    (hbody : ∀ b s s', P s → body s b = some s' → P s') {l : List β} (hs : P s)
    (h : l.foldlM body s = some s') : P s' := by
  induction l generalizing s with
  | nil =>
      cases h
      exact hs
  | cons b l ih =>
      rw [List.foldlM_cons] at h
      obtain ⟨m, hm, hrest⟩ := Option.bind_eq_some_iff.1 h
      exact ih (hbody b s m hs hm) hrest

theorem forRange_keeps {body : ℕ → σ → Option σ}
    (hbody : ∀ i s s', P s → body i s = some s' → P s') {lo hi : ℕ} (hs : P s)
    (h : forRange body lo hi s = some s') : P s' := foldlM_keeps hbody hs h

theorem forWhile_keeps {cont : ℕ → Bool} {body : ℕ → σ → Option σ}
    (hbody : ∀ i s s', P s → body i s = some s' → P s') {lo hi : ℕ} (hs : P s)
    (h : forWhile cont body lo hi s = some s') : P s' := foldlM_keeps hbody hs h

end Keeps

section Ranges

variable {body : ℕ → List α → Option (List α)} {g : ℕ → α → α} {lo hi n : ℕ} {buf : List α}

/-- Step `i` changes the cells of class `i`; the loop changes those of all the classes. -/
theorem forRange_mapWhere {q : ℕ → Prop} [DecidablePred q] {f : ℕ → ℕ}
    (hbody : ∀ i buf, lo ≤ i → i < hi → buf.length = n →
      body i buf = some (mapWhere (fun k => q k ∧ f k = i) g buf))
    (hlen : buf.length = n) :
    forRange body lo hi buf =
      some (mapWhere (fun k => q k ∧ lo ≤ f k ∧ f k < hi) g buf) := by
  have hsteps : ∀ m, lo + m ≤ hi → (List.range' lo m).foldlM (fun s i => body i s) buf =
      some (mapWhere (fun k => q k ∧ lo ≤ f k ∧ f k < lo + m) g buf) := by
    intro m
    induction m with
    | zero =>
        intro _
        refine congrArg some (mapWhere_id fun i a hi' => ?_).symm
        omega
    | succ m ih =>
        intro hm
        have hstep := hbody (lo + m) (mapWhere (fun k => q k ∧ lo ≤ f k ∧ f k < lo + m) g buf)
          (Nat.le_add_right _ _) (by omega) (by rw [length_mapWhere, hlen])
        rw [List.range'_concat, Nat.one_mul, List.foldlM_append, ih (by omega), Option.bind_eq_bind,
          Option.bind_some, List.foldlM_cons, hstep,
          mapWhere_mapWhere (by rintro i ⟨-, -, hlt⟩ ⟨-, heq⟩; omega)]
        refine congrArg some (mapWhere_congr fun i _ => ?_)
        constructor
        · rintro (⟨hin, hle, hlt⟩ | ⟨hin, heq⟩)
          · exact ⟨hin, hle, by omega⟩
          · exact ⟨hin, by omega, by omega⟩
        · rintro ⟨hin, hle, hlt⟩
          by_cases heq : f i = lo + m
          · exact Or.inr ⟨hin, heq⟩
          · exact Or.inl ⟨hin, hle, by omega⟩
  rw [forRange]
  by_cases hle : lo ≤ hi
  · rw [hsteps (hi - lo) (by omega)]
    refine congrArg some (mapWhere_congr fun i _ => ?_)
    rw [Nat.add_sub_cancel' hle]
  · rw [Nat.sub_eq_zero_of_le (Nat.le_of_not_le hle)]
    refine congrArg some (mapWhere_id fun i a hi' => ?_).symm
    omega

/-- Each step changes a cell of a row. -/
theorem forRange_cells {b : ℕ}
    (hbody : ∀ i buf, lo ≤ i → i < hi → buf.length = n →
      body i buf = some (mapWhere (fun k => k = b + i) g buf))
    (hlen : buf.length = n) :
    forRange body lo hi buf = some (mapWhere (fun k => b + lo ≤ k ∧ k < b + hi) g buf) := by
  rw [forRange_mapWhere (n := n) (q := fun k => b ≤ k) (f := fun k => k - b)
    (fun i buf hlo hhi hbuf => ?_) hlen]
  · exact congrArg some (mapWhere_congr fun k _ => by omega)
  · rw [hbody i buf hlo hhi hbuf]
    exact congrArg some (mapWhere_congr fun k _ => by omega)

/-- The cells of a row are those whose index divided by the stride is the row. -/
theorem mem_row_iff {stride row x₀ x₁ k : ℕ} (hx : x₁ ≤ stride) :
    (row * stride + x₀ ≤ k ∧ k < row * stride + x₁) ↔
      k / stride = row ∧ x₀ ≤ k % stride ∧ k % stride < x₁ := by
  have hsplit : k / stride * stride + k % stride = k := by
    rw [Nat.mul_comm]
    exact Nat.div_add_mod k stride
  constructor
  · rintro ⟨hle, hlt⟩
    have hdiv : k / stride = row := by
      refine Nat.div_eq_of_lt_le (by omega) ?_
      rw [Nat.succ_mul]
      omega
    rw [hdiv] at hsplit
    omega
  · rintro ⟨rfl, hle, hlt⟩
    omega

/-- Each step changes the cells of a row between two columns. -/
theorem forRange_rows {w y a b : ℕ} (hx : b ≤ w)
    (hbody : ∀ i buf, lo ≤ i → i < hi → buf.length = n →
      body i buf = some (mapWhere
        (fun k => (y + i) * w + a ≤ k ∧ k < (y + i) * w + b) g buf))
    (hlen : buf.length = n) :
    forRange body lo hi buf =
      some (mapWhere (fun k => (a ≤ k % w ∧ k % w < b) ∧
        y + lo ≤ k / w ∧ k / w < y + hi) g buf) := by
  rw [forRange_mapWhere (n := n)
    (q := fun k => (a ≤ k % w ∧ k % w < b) ∧ y ≤ k / w)
    (f := fun k => k / w - y) (fun i buf hlo hhi hbuf => ?_) hlen]
  · exact congrArg some (mapWhere_congr fun k _ => by omega)
  · rw [hbody i buf hlo hhi hbuf]
    refine congrArg some (mapWhere_congr fun k _ => ?_)
    rw [mem_row_iff hx]
    omega

/-- **Rectangles.**  Each step of a loop over columns, in one over rows, changes one cell. -/
theorem forRange_rect {body : ℕ → ℕ → List α → Option (List α)}
    {w y x c₀ c₁ : ℕ} (hcols : x + c₁ ≤ w)
    (hbody : ∀ row col buf, lo ≤ row → row < hi → c₀ ≤ col → col < c₁ → buf.length = n →
      body row col buf =
        some (mapWhere (fun k => k = (y + row) * w + (x + col)) g buf))
    (hlen : buf.length = n) :
    forRange (fun row buf => forRange (fun col buf => body row col buf) c₀ c₁ buf) lo hi buf =
      some (mapWhere (fun k => (x + c₀ ≤ k % w ∧ k % w < x + c₁) ∧
        y + lo ≤ k / w ∧ k / w < y + hi) g buf) := by
  refine forRange_rows (n := n) hcols (fun row buf hlo hhi hbuf => ?_) hlen
  rw [forRange_cells (n := n) (b := (y + row) * w + x)
    (fun col buf hc₀ hc₁ hbuf => ?_) hbuf]
  · exact congrArg some (mapWhere_congr fun k _ => by omega)
  · rw [hbody row col buf hlo hhi hc₀ hc₁ hbuf]
    exact congrArg some (mapWhere_congr fun k _ => by omega)

end Ranges

/-- A loop that is left at `m`. -/
theorem forWhile_eq {cont : ℕ → Bool} {body : ℕ → σ → Option σ} {lo hi m : ℕ}
    (hcont : ∀ i < hi, (cont i = true ↔ i < m)) (s : σ) :
    forWhile cont body lo hi s = forRange body lo (min hi m) s := by
  have htake : ∀ len lo, lo + len ≤ hi →
      (List.range' lo len).takeWhile cont = List.range' lo (min len (m - lo)) := by
    intro len
    induction len with
    | zero => intro lo _; simp
    | succ len ih =>
        intro lo hle
        rw [List.range'_succ, List.takeWhile_cons]
        by_cases hlo : lo < m
        · have hmin : min (len + 1) (m - lo) = min len (m - (lo + 1)) + 1 := by omega
          rw [if_pos ((hcont lo (by omega)).2 hlo), ih (lo + 1) (by omega), hmin, List.range'_succ]
        · have hmin : min (len + 1) (m - lo) = 0 := by omega
          have hfalse : ¬cont lo = true := fun h => hlo ((hcont lo (by omega)).1 h)
          rw [if_neg hfalse, hmin, List.range'_zero]
  rw [forWhile, forRange]
  by_cases hle : lo ≤ hi
  · rw [htake _ _ (by omega)]
    refine congrArg (fun len => (List.range' lo len).foldlM (fun s i => body i s) s) ?_
    omega
  · have hnone : hi - lo = 0 := by omega
    have hnone' : min hi m - lo = 0 := by omega
    rw [hnone, hnone', List.range'_zero, List.takeWhile_nil]

/-- Changes of the whole image, one after the other. -/
theorem foldlM_mapIdx {β : Type v} {body : List α → β → Option (List α)} {f : β → ℕ → α → α}
    {n : ℕ} {l : List β}
    (hbody : ∀ b ∈ l, ∀ buf, buf.length = n → body buf b = some (buf.mapIdx (f b)))
    {buf : List α} (hlen : buf.length = n) :
    l.foldlM body buf = some (buf.mapIdx fun i a => l.foldl (fun a b => f b i a) a) := by
  induction l generalizing buf with
  | nil =>
      refine congrArg some (List.ext_getElem? fun i => ?_)
      rw [List.getElem?_mapIdx]
      exact Option.map_id'.symm
  | cons b l ih =>
      rw [List.foldlM_cons, hbody b List.mem_cons_self buf hlen, Option.bind_eq_bind,
        Option.bind_some, ih (fun b hb => hbody b (List.mem_cons_of_mem _ hb))
          (by rw [List.length_mapIdx, hlen])]
      refine congrArg some (List.ext_getElem? fun i => ?_)
      rw [List.getElem?_mapIdx, List.getElem?_mapIdx, List.getElem?_mapIdx, Option.map_map]
      rfl

end Raster
