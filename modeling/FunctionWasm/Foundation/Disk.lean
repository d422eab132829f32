import FunctionWasm.Foundation.Text
import Mathlib.Logic.Function.Basic

/-!
# Disk — a file system that is not one's own

The files of a process are also everyone else's: before each of its operations the others may have
changed any of them, and an operation may fail.

* `Disk.stat`, `read`, `touch`, `write`, `rename` and `remove` are the operations.  The log says what
  was handed to the file system, and what a read came back with.
* `Disk.Within` says that only paths with some property were named on the way to a later state.
* `joinPath` appends to a path; `components` and `DirectChild` read a path lexically.
-/

namespace FunctionWasm

/-! ## Files -/

inductive Node where
  | file (content : Bytes)
  | dir
  deriving DecidableEq

abbrev Files := Text → Option Node

inductive FileOp where
  | stat (path : Text)
  | read (path : Text) (content : Option Bytes)
  | touch (path : Text)
  | write (path : Text)
  | rename (source target : Text)
  | remove (path : Text)
  deriving DecidableEq

/-- The paths that an operation names. -/
def FileOp.paths : FileOp → List Text
  | stat path => [path]
  | read path _ => [path]
  | touch path => [path]
  | write path => [path]
  | rename source target => [source, target]
  | remove path => [path]

/-- The files, what the others do to them, which operations fail, how an error reads, and the random
bytes that the process is given; all of these by the number of operations done so far. -/
structure Disk where
  files : Files
  others : Nat → Files → Files
  fails : Nat → Bool
  errors : Nat → Text
  random : Nat → Bytes
  log : List FileOp

namespace Disk

/-- The files that the next operation finds. -/
def found (d : Disk) : Files := d.others d.log.length d.files

/-- Whether the next operation fails. -/
def failing (d : Disk) : Bool := d.fails d.log.length

/-- How the next operation's error would read. -/
def error (d : Disk) : Text := d.errors d.log.length

def nonce (d : Disk) : Bytes := d.random d.log.length

/-- What an operation leaves. -/
def leave (d : Disk) (op : FileOp) (files : Files) : Disk :=
  { d with files := files, log := d.log ++ [op] }

/-- The content that a read of a path would return now. -/
def content (d : Disk) (path : Text) : Option Bytes :=
  if d.failing then none
  else
    match d.found path with
    | some (.file b) => some b
    | _ => none

def stat (path : Text) (d : Disk) : Option Node × Disk :=
  (if d.failing then none else d.found path, d.leave (.stat path) d.found)

def read (path : Text) (d : Disk) : Except Text Bytes × Disk :=
  match d.content path with
  | some b => (.ok b, d.leave (.read path (some b)) d.found)
  | none => (.error d.error, d.leave (.read path none) d.found)

/-- Sets the times of a file, best effort. -/
def touch (path : Text) (d : Disk) : Disk :=
  d.leave (.touch path) d.found

def write (path : Text) (b : Bytes) (d : Disk) : Except Text Unit × Disk :=
  if d.failing ∨ d.found path = some .dir then (.error d.error, d.leave (.write path) d.found)
  else (.ok (), d.leave (.write path) (Function.update d.found path (some (.file b))))

def rename (source target : Text) (d : Disk) : Except Text Unit × Disk :=
  match d.content source with
  | some b =>
      if d.found target = some .dir then (.error d.error, d.leave (.rename source target) d.found)
      else
        (.ok (), d.leave (.rename source target)
          (Function.update (Function.update d.found source none) target (some (.file b))))
  | none => (.error d.error, d.leave (.rename source target) d.found)

def remove (path : Text) (d : Disk) : Disk :=
  match d.content path with
  | some _ => d.leave (.remove path) (Function.update d.found path none)
  | none => d.leave (.remove path) d.found

/-! ## What an operation adds to the log -/

@[simp] theorem leave_log (d : Disk) (op : FileOp) (files : Files) :
    (d.leave op files).log = d.log ++ [op] := rfl

@[simp] theorem stat_log (path : Text) (d : Disk) :
    (d.stat path).2.log = d.log ++ [.stat path] := rfl

@[simp] theorem read_log (path : Text) (d : Disk) :
    (d.read path).2.log = d.log ++ [.read path (d.content path)] := by
  unfold read
  split <;> simp [*]

@[simp] theorem touch_log (path : Text) (d : Disk) :
    (d.touch path).log = d.log ++ [.touch path] := rfl

@[simp] theorem write_log (path : Text) (b : Bytes) (d : Disk) :
    (d.write path b).2.log = d.log ++ [.write path] := by
  unfold write
  split <;> rfl

@[simp] theorem rename_log (source target : Text) (d : Disk) :
    (d.rename source target).2.log = d.log ++ [.rename source target] := by
  unfold rename
  split
  · split <;> rfl
  · rfl

@[simp] theorem remove_log (path : Text) (d : Disk) :
    (d.remove path).log = d.log ++ [.remove path] := by
  unfold remove
  split <;> rfl

/-! ## The paths named on the way -/

/-- From one state to a later one, only paths with a property are named. -/
def Within (P : Text → Prop) (d d' : Disk) : Prop :=
  ∃ ops, d'.log = d.log ++ ops ∧ ∀ op ∈ ops, ∀ p ∈ op.paths, P p

section Within

variable {P Q : Text → Prop} {d d' d'' : Disk}

theorem Within.refl : Within P d d :=
  ⟨[], by simp, by simp⟩

theorem Within.trans (h : Within P d d') (h' : Within P d' d'') : Within P d d'' := by
  rcases h with ⟨ops, hlog, hops⟩
  rcases h' with ⟨ops', hlog', hops'⟩
  refine ⟨ops ++ ops', by rw [hlog', hlog, List.append_assoc], ?_⟩
  intro op hop
  rcases List.mem_append.1 hop with hop | hop
  · exact hops op hop
  · exact hops' op hop

/-- One operation names its own paths. -/
theorem Within.of_op {op : FileOp} (hlog : d'.log = d.log ++ [op]) (hop : ∀ p ∈ op.paths, P p) :
    Within P d d' :=
  ⟨[op], hlog, by simpa using hop⟩

/-- A path that an operation in between names has the property. -/
theorem Within.of_mem {op : FileOp} {rest : List FileOp} (h : Within P d d')
    (hlog : d'.log = d.log ++ op :: rest) : ∀ p ∈ op.paths, P p := by
  rcases h with ⟨ops, hops, hall⟩
  have heq : ops = op :: rest := List.append_cancel_left (hops.symm.trans hlog)
  exact hall op (heq ▸ List.mem_cons_self ..)

end Within
end Disk

/-! ## Paths -/

/-- `Path::join`: an absolute name replaces the directory. -/
def joinPath (dir name : Text) : Text :=
  if name.head? = some '/' then name
  else
    match dir.getLast? with
    | none => name
    | some c => if c = '/' then dir ++ name else dir ++ '/' :: name

/-- The components of a path; empty ones and `.` are none. -/
def components (path : Text) : List Text :=
  (path.splitOn '/').filter fun c => c ≠ [] ∧ c ≠ ['.']

/-- Lexically, a path to something in a directory itself. -/
def DirectChild (dir path : Text) : Prop :=
  (path.head? = some '/' ↔ dir.head? = some '/') ∧
    ∃ name, name ≠ "..".toList ∧ components path = components dir ++ [name]

theorem components_append (dir name : Text) :
    components (dir ++ '/' :: name) = components dir ++ components name := by
  unfold components
  rw [List.splitOn_append_cons_self, List.filter_append]

/-- A plain name is its own single component. -/
theorem components_name {name : Text} (hslash : '/' ∉ name) (hnil : name ≠ [])
    (hdot : name ≠ ['.']) : components name = [name] := by
  have hsplit : name.splitOn '/' = [name] := by
    rw [List.splitOn_eq_splitOnP]
    apply List.splitOnP_eq_singleton
    intro c hc
    simpa using fun h : c = '/' => hslash (h ▸ hc)
  simp [components, hsplit, hnil, hdot]

/-- Joining a relative name appends its components. -/
theorem components_joinPath {dir name : Text} (h : name.head? ≠ some '/') :
    components (joinPath dir name) = components dir ++ components name := by
  unfold joinPath
  rw [if_neg h]
  split
  · next hdir =>
      have hnil : components ([] : Text) = [] := by decide
      rw [List.getLast?_eq_none_iff.1 hdir, hnil, List.nil_append]
  · next c hdir =>
      split
      · next hc =>
          rcases List.getLast?_eq_some_iff.1 hdir with ⟨front, rfl⟩
          subst hc
          have hnil : components ([] : Text) = [] := by decide
          rw [List.append_assoc, List.singleton_append, components_append, components_append, hnil,
            List.append_nil]
      · exact components_append dir name

/-- A relative name joins to a direct child exactly when it has one component, and not `..`. -/
theorem directChild_joinPath {dir name : Text} (h : name.head? ≠ some '/') :
    DirectChild dir (joinPath dir name) ↔ ∃ x, x ≠ "..".toList ∧ components name = [x] := by
  have hhead : (joinPath dir name).head? = some '/' ↔ dir.head? = some '/' := by
    unfold joinPath
    rw [if_neg h]
    cases dir with
    | nil => simpa using h
    | cons c cs =>
        split
        · next hlast => simp at hlast
        · split <;> simp
  unfold DirectChild
  rw [components_joinPath h]
  simp [hhead]

/-- A name without slashes that is longer than `..` joins to a direct child. -/
theorem directChild_of_name {dir name : Text} (hslash : '/' ∉ name) (hlong : 2 < name.length) :
    DirectChild dir (joinPath dir name) := by
  have hne : ∀ other : Text, other.length ≤ 2 → name ≠ other := by
    rintro other hle rfl
    exact absurd hlong (Nat.not_lt.2 hle)
  have hhead : name.head? ≠ some '/' := by
    intro h
    exact hslash (List.mem_of_mem_head? h)
  apply (directChild_joinPath hhead).2
  exact ⟨name, hne _ (by decide), components_name hslash (hne _ (by decide)) (hne _ (by decide))⟩

/-- What is appended to the joined path is appended to the name. -/
theorem joinPath_append {dir name suffix : Text} (hnil : name ≠ []) (hslash : '/' ∉ name) :
    joinPath dir name ++ suffix = joinPath dir (name ++ suffix) := by
  rcases List.exists_cons_of_ne_nil hnil with ⟨c, cs, rfl⟩
  have hc : c ≠ '/' := by
    rintro rfl
    simp at hslash
  unfold joinPath
  simp only [List.cons_append, List.head?_cons, Option.some.injEq, hc, if_false]
  split
  · rfl
  · split <;> simp

end FunctionWasm
