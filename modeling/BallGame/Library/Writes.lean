import Mathlib.Logic.Function.Basic

/-!
# Writes to cells

Values written into a memory, one at a time or in blocks. `Cells` are disjoint ranges of one size,
and what they contain is a picture, that is a function of the cells: writing whole cells updates
the picture (`contents_writes`). Blocks that are longer than a cell spill into what follows, which
does no harm where the cells are written in ascending order (`contents_writes_ascending`).
-/

namespace BallGame.Library

variable {A B C : Type}

/-- The memory after the writes, from left to right. -/
def writeAll [DecidableEq A] (mem : A → B) (writes : List (A × B)) : A → B :=
  writes.foldl (fun mem w => Function.update mem w.1 w.2) mem

theorem writeAll_cons [DecidableEq A] (mem : A → B) (w : A × B) (writes : List (A × B)) :
    writeAll mem (w :: writes) = writeAll (Function.update mem w.1 w.2) writes := rfl

theorem writeAll_append [DecidableEq A] (mem : A → B) (first second : List (A × B)) :
    writeAll mem (first ++ second) = writeAll (writeAll mem first) second :=
  List.foldl_append

/-- What is not written stays. -/
theorem writeAll_of_not_mem [DecidableEq A] {mem : A → B} {writes : List (A × B)} {a : A}
    (h : a ∉ writes.map Prod.fst) : writeAll mem writes a = mem a := by
  induction writes generalizing mem with
  | nil => rfl
  | cons w writes ih =>
    rw [List.map_cons, List.mem_cons, not_or] at h
    rw [writeAll_cons, ih h.2, Function.update_of_ne h.1]

/-! ## Blocks -/

/-- Values written one behind the other. -/
def block (start : Nat) (values : List B) : List (Nat × B) :=
  values.mapIdx fun i v => (start + i, v)

theorem block_cons (start : Nat) (v : B) (values : List B) :
    block start (v :: values) = (start, v) :: block (start + 1) values := by
  rw [block, List.mapIdx_cons, Nat.add_zero, block]
  congr 2
  funext i v
  rw [Nat.add_assoc, Nat.add_comm 1]

/-- The values of a range. -/
def readBlock (mem : Nat → B) (start size : Nat) : List B :=
  (List.range size).map fun i => mem (start + i)

theorem readBlock_congr {mem mem' : Nat → B} {start size : Nat}
    (h : ∀ a, start ≤ a → a < start + size → mem a = mem' a) :
    readBlock mem start size = readBlock mem' start size := by
  apply List.map_congr_left
  intro i hi
  rw [List.mem_range] at hi
  exact h _ (Nat.le_add_right _ _) (by omega)

theorem writeAll_block_of_outside {mem : Nat → B} {start a : Nat} {values : List B}
    (h : a < start ∨ start + values.length ≤ a) :
    writeAll mem (block start values) a = mem a := by
  apply writeAll_of_not_mem
  intro hmem
  obtain ⟨w, hw, rfl⟩ := List.mem_map.mp hmem
  obtain ⟨i, hi, rfl⟩ := List.mem_mapIdx.mp hw
  dsimp only at h
  omega

/-- A range that the block does not reach. -/
theorem readBlock_of_disjoint {mem : Nat → B} {start start' size : Nat} {values : List B}
    (h : start' + size ≤ start ∨ start + values.length ≤ start') :
    readBlock (writeAll mem (block start values)) start' size = readBlock mem start' size := by
  apply readBlock_congr
  intro a hlow hhigh
  exact writeAll_block_of_outside (by omega)

/-- The range in which the block begins. -/
theorem readBlock_of_start {mem : Nat → B} {start size : Nat} {values : List B}
    (h : size ≤ values.length) :
    readBlock (writeAll mem (block start values)) start size = values.take size := by
  induction values generalizing mem start size with
  | nil =>
    obtain rfl : size = 0 := Nat.le_zero.mp h
    rfl
  | cons v values ih =>
    cases size with
    | zero => rfl
    | succ size =>
      rw [List.length_cons] at h
      have hfirst : writeAll mem (block start (v :: values)) start = v := by
        rw [block_cons, writeAll_cons, writeAll_block_of_outside (Or.inl (Nat.lt_succ_self start)),
          Function.update_self]
      have hle : size ≤ values.length := Nat.le_of_succ_le_succ h
      have hrest := @ih (Function.update mem start v) (start + 1) size hle
      rw [List.take_succ_cons, ← hrest, readBlock, List.range_succ_eq_map, List.map_cons,
        List.map_map, Nat.add_zero, hfirst, block_cons, writeAll_cons]
      congr 1
      apply List.map_congr_left
      intro i _
      rw [Function.comp_apply, Nat.succ_eq_add_one, Nat.add_comm i, Nat.add_assoc]

/-! ## Cells -/

/-- Disjoint ranges of one size, one for each valid `c`. -/
structure Cells (C : Type) where
  Valid : C → Prop
  start : C → Nat
  size : Nat
  disjoint : ∀ c d, Valid c → Valid d → c ≠ d →
    start c + size ≤ start d ∨ start d + size ≤ start c

namespace Cells

variable (g : Cells C)

/-- The picture in the memory. -/
def contents (mem : Nat → B) (c : C) : List B := readBlock mem (g.start c) g.size

/-- A block for each cell. -/
def writes (ws : List (C × List B)) : List (Nat × B) :=
  ws.flatMap fun w => block (g.start w.1) w.2

theorem writes_cons (w : C × List B) (ws : List (C × List B)) :
    g.writes (w :: ws) = block (g.start w.1) w.2 ++ g.writes ws := rfl

/-- The address belongs to a cell. -/
def Covers (a : Nat) : Prop := ∃ c, g.Valid c ∧ g.start c ≤ a ∧ a < g.start c + g.size

variable {g}

theorem contents_write [DecidableEq C] {mem : Nat → B} {c d : C} {values : List B}
    (hc : g.Valid c) (hd : g.Valid d) (hlen : values.length = g.size) :
    g.contents (writeAll mem (block (g.start d) values)) c =
      Function.update (g.contents mem) d values c := by
  by_cases hcd : c = d
  · rw [hcd, Function.update_self, contents, readBlock_of_start (Nat.le_of_eq hlen.symm), ← hlen,
      List.take_length]
  · rw [Function.update_of_ne hcd]
    apply readBlock_of_disjoint
    rw [hlen]
    exact g.disjoint c d hc hd hcd

/-- Some cells get the same values. -/
theorem foldl_update_const [DecidableEq C] (pic : C → List B) (cs : List C) (values : List B)
    (c : C) : (cs.map fun d => (d, values)).foldl (fun pic w => Function.update pic w.1 w.2) pic c =
      if c ∈ cs then values else pic c := by
  induction cs generalizing pic with
  | nil => rfl
  | cons d cs ih =>
    rw [List.map_cons, List.foldl_cons, ih]
    by_cases hcd : c = d
    · simp [hcd]
    · simp [hcd]

/-- Writing whole cells updates the picture. -/
theorem contents_writes [DecidableEq C] {mem : Nat → B} {pic : C → List B}
    {ws : List (C × List B)} (hws : ∀ w ∈ ws, g.Valid w.1 ∧ w.2.length = g.size)
    (hpic : ∀ c, g.Valid c → g.contents mem c = pic c) {c : C} (hc : g.Valid c) :
    g.contents (writeAll mem (g.writes ws)) c =
      ws.foldl (fun pic w => Function.update pic w.1 w.2) pic c := by
  induction ws generalizing mem pic with
  | nil => exact hpic c hc
  | cons w ws ih =>
    rw [List.forall_mem_cons] at hws
    rw [writes_cons, writeAll_append, List.foldl_cons]
    apply ih hws.2
    intro d hd
    rw [contents_write hd hws.1.1 hws.1.2]
    by_cases hdw : d = w.1
    · rw [hdw, Function.update_self, Function.update_self]
    · rw [Function.update_of_ne hdw, Function.update_of_ne hdw, hpic d hd]

/-- The memory beside the cells stays. -/
theorem writes_outside {mem : Nat → B} {ws : List (C × List B)}
    (hws : ∀ w ∈ ws, g.Valid w.1 ∧ w.2.length = g.size) {a : Nat} (ha : ¬ g.Covers a) :
    writeAll mem (g.writes ws) a = mem a := by
  induction ws generalizing mem with
  | nil => rfl
  | cons w ws ih =>
    rw [List.forall_mem_cons] at hws
    rw [writes_cons, writeAll_append, ih hws.2]
    apply writeAll_block_of_outside
    by_contra hin
    exact ha ⟨w.1, hws.1.1, by omega, by omega⟩

/-- In ascending order every block wins in its own cell, however long it is. -/
theorem contents_writes_ascending {mem : Nat → B} {ws : List (C × List B)}
    (horder : ws.Pairwise fun v w => g.start v.1 + g.size ≤ g.start w.1)
    (hlen : ∀ w ∈ ws, g.size ≤ w.2.length) {w : C × List B} (hw : w ∈ ws) :
    g.contents (writeAll mem (g.writes ws)) w.1 = w.2.take g.size := by
  induction ws generalizing mem with
  | nil => cases hw
  | cons v ws ih =>
    rw [List.pairwise_cons] at horder
    rw [List.forall_mem_cons] at hlen
    rw [writes_cons, writeAll_append]
    rcases List.mem_cons.mp hw with rfl | hw
    · -- the blocks behind it do not reach back
      have hblock : readBlock (writeAll mem (block (g.start w.1) w.2)) (g.start w.1) g.size =
          w.2.take g.size := readBlock_of_start hlen.1
      rw [contents, ← hblock]
      apply readBlock_congr
      intro a _ ha
      apply writeAll_of_not_mem
      intro hmem
      obtain ⟨p, hp, rfl⟩ := List.mem_map.mp hmem
      obtain ⟨u, hu, hp⟩ := List.mem_flatMap.mp hp
      obtain ⟨i, _, rfl⟩ := List.mem_mapIdx.mp hp
      have hbehind := horder.1 u hu
      dsimp only at ha
      omega
    · exact ih horder.2 hlen.2 hw

end Cells

end BallGame.Library
