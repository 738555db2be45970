import Mathlib.Data.List.Basic

/-!
# Slices of one array

A slice is a part of a shared array with a length and a capacity. Appending to it
writes into the array as long as the capacity lasts; after that the slice moves to an
array of its own and the shared one is left as it is.

* `appendAll_shared` — with enough capacity, appending piece by piece writes the pieces
  one after the other.
* `Laid.apart` — slices that are taken one after the other share nothing.
* `read_overwrite`, `read_overwrite_of_le`, `getElem?_overwrite` — what is read back,
  and what is left alone.
-/

namespace Hypergate.Lib

universe u

variable {α : Type u}

/-- Write from a position on. -/
def overwrite (mem : List α) (pos : Nat) : List α → List α
  | [] => mem
  | b :: bs => overwrite (mem.set pos b) (pos + 1) bs

/-- Read from a position on. -/
def readAt (mem : List α) (pos len : Nat) : List α := (mem.drop pos).take len

inductive Slice (α : Type u) where
  | shared (start len cap : Nat)
  | own (contents : List α)

def Slice.length : Slice α → Nat
  | .shared _ len _ => len
  | .own contents => contents.length

def Slice.read (mem : List α) : Slice α → List α
  | .shared start len _ => readAt mem start len
  | .own contents => contents

def Slice.append (mem : List α) (s : Slice α) (bs : List α) : List α × Slice α :=
  match s with
  | .shared start len cap =>
    if len + bs.length ≤ cap then
      (overwrite mem (start + len) bs, .shared start (len + bs.length) cap)
    else (mem, .own (readAt mem start len ++ bs))
  | .own contents => (mem, .own (contents ++ bs))

/-- Append some pieces one after the other. -/
def Slice.appendAll (mem : List α) (s : Slice α) : List (List α) → List α × Slice α
  | [] => (mem, s)
  | bs :: rest => Slice.appendAll (s.append mem bs).1 (s.append mem bs).2 rest

/-- The two slices share nothing. -/
def Slice.Apart : Slice α → Slice α → Prop
  | .shared start len _, .shared start' len' _ => start + len ≤ start' ∨ start' + len' ≤ start
  | _, _ => True

/-- The shared slices stand between two positions, one after the other. -/
def Laid (lo hi : Nat) : List (Slice α) → Prop
  | [] => lo ≤ hi
  | .shared start len _ :: rest => lo ≤ start ∧ Laid (start + len) hi rest
  | .own _ :: rest => Laid lo hi rest

/-! ## Writing -/

@[simp] theorem length_overwrite (mem : List α) (pos : Nat) (bs : List α) :
    (overwrite mem pos bs).length = mem.length := by
  induction bs generalizing mem pos with
  | nil => rfl
  | cons b bs ih => rw [overwrite, ih, List.length_set]

theorem overwrite_append (mem : List α) (pos : Nat) (bs cs : List α) :
    overwrite mem pos (bs ++ cs) = overwrite (overwrite mem pos bs) (pos + bs.length) cs := by
  induction bs generalizing mem pos with
  | nil => rfl
  | cons b bs ih =>
    rw [List.cons_append, overwrite, ih, overwrite, List.length_cons, Nat.add_right_comm,
      Nat.add_assoc]

variable {mem : List α} {bs : List α}

theorem getElem?_overwrite {pos i : Nat} (h : i < pos ∨ pos + bs.length ≤ i) :
    (overwrite mem pos bs)[i]? = mem[i]? := by
  induction bs generalizing mem pos with
  | nil => rfl
  | cons b bs ih =>
    rw [List.length_cons] at h
    rw [overwrite, ih (by omega), List.getElem?_set_ne (by omega)]

theorem getElem?_overwrite_of_lt {pos i : Nat} (hroom : pos + bs.length ≤ mem.length)
    (hi : i < bs.length) :
    (overwrite mem pos bs)[pos + i]? = bs[i]? := by
  induction bs generalizing mem pos i with
  | nil => cases hi
  | cons b bs ih =>
    rw [List.length_cons] at hroom hi
    cases i with
    | zero =>
      have hpos : pos < mem.length := by omega
      rw [overwrite, getElem?_overwrite (.inl (by omega))]
      exact List.getElem?_set_self hpos
    | succ i =>
      have hset : pos + 1 + bs.length ≤ (mem.set pos b).length := by
        rw [List.length_set]
        omega
      rw [overwrite, show pos + (i + 1) = pos + 1 + i by omega, ih hset (by omega)]
      rfl

theorem read_overwrite {pos : Nat} (h : pos + bs.length ≤ mem.length) :
    readAt (overwrite mem pos bs) pos bs.length = bs := by
  refine List.ext_getElem? fun i => ?_
  unfold readAt
  by_cases hi : i < bs.length
  · rw [List.getElem?_take_of_lt hi, List.getElem?_drop, getElem?_overwrite_of_lt h hi]
  · rw [List.getElem?_eq_none (by simp; omega), List.getElem?_eq_none (by omega)]

/-- What was read before the position is read again. -/
theorem read_overwrite_of_le {pos start len : Nat} (h : start + len ≤ pos) :
    readAt (overwrite mem pos bs) start len = readAt mem start len := by
  refine List.ext_getElem? fun i => ?_
  unfold readAt
  by_cases hi : i < len
  · rw [List.getElem?_take_of_lt hi, List.getElem?_take_of_lt hi, List.getElem?_drop,
      List.getElem?_drop, getElem?_overwrite (.inl (by omega))]
  · rw [List.getElem?_take_eq_none (by omega), List.getElem?_take_eq_none (by omega)]

theorem read_overwrite_left {pos : Nat} {bs cs : List α} (h : pos + bs.length ≤ mem.length) :
    readAt (overwrite mem pos (bs ++ cs)) pos bs.length = bs := by
  rw [overwrite_append, read_overwrite_of_le (Nat.le_refl _), read_overwrite h]

theorem read_overwrite_right {pos : Nat} {bs cs : List α}
    (h : pos + (bs.length + cs.length) ≤ mem.length) :
    readAt (overwrite mem pos (bs ++ cs)) (pos + bs.length) cs.length = cs := by
  rw [overwrite_append, read_overwrite (by rw [length_overwrite]; omega)]

/-! ## Appending -/

theorem append_shared {start len cap : Nat} (h : len + bs.length ≤ cap) :
    Slice.append mem (.shared start len cap) bs
      = (overwrite mem (start + len) bs, .shared start (len + bs.length) cap) := if_pos h

theorem append_overwrite {pos start len cap : Nat} {bs cs : List α}
    (hend : start + len = pos + bs.length) (h : len + cs.length ≤ cap) :
    Slice.append (overwrite mem pos bs) (.shared start len cap) cs
      = (overwrite mem pos (bs ++ cs), .shared start (len + cs.length) cap) := by
  rw [append_shared h, hend, overwrite_append]

theorem appendAll_shared {start len cap : Nat} {pieces : List (List α)}
    (h : len + pieces.flatten.length ≤ cap) :
    Slice.appendAll mem (.shared start len cap) pieces
      = (overwrite mem (start + len) pieces.flatten,
        .shared start (len + pieces.flatten.length) cap) := by
  induction pieces generalizing mem len with
  | nil => rfl
  | cons bs rest ih =>
    rw [List.flatten_cons, List.length_append] at h
    rw [Slice.appendAll, append_shared (by omega), ih (by omega), List.flatten_cons,
      overwrite_append, List.length_append, Nat.add_assoc, Nat.add_assoc]

/-! ## Slices side by side -/

variable {l : List (Slice α)}

theorem Laid.le {lo hi : Nat} (h : Laid lo hi l) : lo ≤ hi := by
  induction l generalizing lo with
  | nil => exact h
  | cons s rest ih =>
    cases s with
    | shared start len cap => exact Nat.le_trans (Nat.le_add_right_of_le h.1) (ih h.2)
    | own contents => exact ih h

theorem Laid.mono {lo lo' hi : Nat} (hle : lo' ≤ lo) (h : Laid lo hi l) :
    Laid lo' hi l := by
  induction l with
  | nil => exact Nat.le_trans hle h
  | cons s rest ih =>
    cases s with
    | shared start len cap => exact ⟨Nat.le_trans hle h.1, h.2⟩
    | own contents => exact ih h

theorem Laid.append {lo mid hi : Nat} {l l' : List (Slice α)} (h : Laid lo mid l)
    (h' : Laid mid hi l') : Laid lo hi (l ++ l') := by
  induction l generalizing lo with
  | nil => exact h'.mono h
  | cons s rest ih =>
    cases s with
    | shared start len cap => exact ⟨h.1, ih h.2⟩
    | own contents => exact ih h

theorem Laid.bounds {lo hi start len cap : Nat} (h : Laid lo hi l)
    (hmem : Slice.shared start len cap ∈ l) : lo ≤ start ∧ start + len ≤ hi := by
  induction l generalizing lo with
  | nil => exact absurd hmem List.not_mem_nil
  | cons s rest ih =>
    rcases List.mem_cons.mp hmem with rfl | hrest
    · exact ⟨h.1, h.2.le⟩
    · cases s with
      | shared start' len' cap' =>
        obtain ⟨hlo, hhi⟩ := ih h.2 hrest
        exact ⟨Nat.le_trans (Nat.le_add_right_of_le h.1) hlo, hhi⟩
      | own contents => exact ih h hrest

theorem Laid.apart {lo hi : Nat} (h : Laid lo hi l) :
    l.Pairwise Slice.Apart := by
  induction l generalizing lo with
  | nil => exact .nil
  | cons s rest ih =>
    cases s with
    | own contents => exact .cons (fun _ _ => trivial) (ih h)
    | shared start len cap =>
      refine .cons (fun t ht => ?_) (ih h.2)
      cases t with
      | own contents => trivial
      | shared start' len' cap' => exact .inl (h.2.bounds ht).1

/-- Slices are read as before after writing behind them. -/
theorem Laid.read_overwrite {lo hi : Nat} (h : Laid lo hi l) (mem bs : List α) :
    l.map (Slice.read (overwrite mem hi bs)) = l.map (Slice.read mem) := by
  refine List.map_congr_left fun s hs => ?_
  cases s with
  | own contents => rfl
  | shared start len cap => exact read_overwrite_of_le (h.bounds hs).2

end Hypergate.Lib
