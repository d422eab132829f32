import Mathlib.Logic.Function.Basic

/-!
# Flights — one attempt at a time for each key

A key has at most one current cell.  A caller takes a seat at it and waits; the holder of the cell's
permit attempts to set it, and on a failure the next one in the seats may.  A key's cell can be
forgotten, and the next caller makes a new one.

* `Flights` are the cells and the seats at them, `FlightMove` is what a step can do to them.
* `FlightsInv` holds whatever happens, `Seated` while no key is forgotten that is not `Idle`.
* `Seated.single` is the purpose: attempts for one key are of one caller.
-/

namespace FunctionWasm

/-- Where a caller sits: it waits at a cell, or its attempt is under way. -/
inductive Seat where
  | waiting (c : Nat)
  | loading (c : Nat)
  deriving DecidableEq, Repr

def Seat.cell : Seat → Nat
  | .waiting c => c
  | .loading c => c

/-- A cell of a key; its holder is the caller whose attempt is under way. -/
structure SeatCell (κ : Type) where
  key : κ
  filled : Bool
  holder : Option Nat
  deriving DecidableEq, Repr

structure Flights (κ : Type) where
  current : κ → Option Nat
  made : Nat
  cells : Nat → Option (SeatCell κ)
  seats : Nat → Option (κ × Seat)

namespace Flights

variable {κ : Type}

def setCell (s : Flights κ) (c : Nat) (y : SeatCell κ) : Flights κ :=
  { s with cells := Function.update s.cells c (some y) }

def setSeat (s : Flights κ) (i : Nat) (p : Option (κ × Seat)) : Flights κ :=
  { s with seats := Function.update s.seats i p }

theorem seats_setSeat {s : Flights κ} {i j : Nat} {p : Option (κ × Seat)} {q : κ × Seat}
    (h : (s.setSeat i p).seats j = some q) : (j = i ∧ p = some q) ∨ (j ≠ i ∧ s.seats j = some q) := by
  by_cases hj : j = i
  · subst hj
    exact Or.inl ⟨rfl, by simpa [setSeat] using h⟩
  · exact Or.inr ⟨hj, by simpa [setSeat, hj] using h⟩

theorem cells_setCell {s : Flights κ} {c c' : Nat} {y y' : SeatCell κ}
    (h : (s.setCell c y).cells c' = some y') :
    (c' = c ∧ y' = y) ∨ (c' ≠ c ∧ s.cells c' = some y') := by
  by_cases hc : c' = c
  · subst hc
    exact Or.inl ⟨rfl, by simpa [setCell, eq_comm] using h⟩
  · exact Or.inr ⟨hc, by simpa [setCell, hc] using h⟩

theorem cells_setCell_self (s : Flights κ) (c : Nat) (y : SeatCell κ) :
    (s.setCell c y).cells c = some y := by
  simp [setCell]

theorem cells_setCell_ne {s : Flights κ} {c c' : Nat} (h : c' ≠ c) (y : SeatCell κ) :
    (s.setCell c y).cells c' = s.cells c' := by
  simp [setCell, h]

theorem seats_setSeat_ne {s : Flights κ} {i j : Nat} (h : j ≠ i) (p : Option (κ × Seat)) :
    (s.setSeat i p).seats j = s.seats j := by
  simp [setSeat, h]

/-- A cell rewritten under its key stays a cell of it. -/
theorem keyed_setCell {s : Flights κ} {c c' : Nat} {y w : SeatCell κ} {k : κ}
    (hy : s.cells c = some y) (hkey : w.key = y.key) (h : ∃ z, s.cells c' = some z ∧ z.key = k) :
    ∃ z, (s.setCell c w).cells c' = some z ∧ z.key = k := by
  rcases h with ⟨z, hz, hzkey⟩
  by_cases hc : c' = c
  · subst hc
    cases hy.symm.trans hz
    exact ⟨w, cells_setCell_self _ _ _, hkey.trans hzkey⟩
  · exact ⟨z, by rw [cells_setCell_ne hc, hz], hzkey⟩

/-- The permit is taken, and the attempt begins. -/
def board (s : Flights κ) (i : Nat) (k : κ) (c : Nat) (y : SeatCell κ) : Flights κ :=
  (s.setCell c { y with holder := some i }).setSeat i (some (k, .loading c))

/-- The attempt ends: the cell is filled or not, and the permit is free. -/
def land (s : Flights κ) (i c : Nat) (y : SeatCell κ) (b : Bool) : Flights κ :=
  (s.setCell c { y with filled := b, holder := none }).setSeat i none

variable [DecidableEq κ]

/-- The first caller of a key makes its cell. -/
def launch (s : Flights κ) (i : Nat) (k : κ) : Flights κ :=
  { (s.setCell s.made { key := k, filled := false, holder := none }).setSeat i
      (some (k, .waiting s.made)) with
    current := Function.update s.current k (some s.made)
    made := s.made + 1 }

def forget (s : Flights κ) (k : κ) : Flights κ :=
  { s with current := Function.update s.current k none }

end Flights

/-! ## The invariant -/

section Invariant

variable {κ : Type}

/-- Who sits at a cell sits at one of its key; an attempt holds its cell's permit, and only
attempts do. -/
structure FlightsInv (s : Flights κ) : Prop where
  seated : ∀ i k t, s.seats i = some (k, t) → ∃ y, s.cells t.cell = some y ∧ y.key = k
  holds : ∀ i k c y, s.seats i = some (k, .loading c) → s.cells c = some y →
    y.holder = some i ∧ y.filled = false
  held : ∀ c y i, s.cells c = some y → y.holder = some i → ∃ k, s.seats i = some (k, .loading c)
  keyed : ∀ k c, s.current k = some c → ∃ y, s.cells c = some y ∧ y.key = k
  fresh : ∀ c, s.made ≤ c → s.cells c = none

/-- Who sits at an unfilled cell sits at the current one of its key. -/
def Seated (s : Flights κ) : Prop :=
  ∀ i k t y, s.seats i = some (k, t) → s.cells t.cell = some y → y.filled = false →
    s.current k = some t.cell

/-- Nobody sits at the key's cell, or it is filled. -/
def Flights.Idle (s : Flights κ) (k : κ) : Prop :=
  ∀ c y i k' t, s.current k = some c → s.cells c = some y → y.filled = false →
    s.seats i = some (k', t) → t.cell ≠ c

/-- One attempt for a key at a time. -/
theorem Seated.single {s : Flights κ} (hseated : Seated s) (h : FlightsInv s) {i j : Nat} {k : κ}
    {c c' : Nat} (hi : s.seats i = some (k, .loading c)) (hj : s.seats j = some (k, .loading c')) :
    i = j := by
  rcases h.seated i k _ hi with ⟨y, hy, -⟩
  rcases h.seated j k _ hj with ⟨y', hy', -⟩
  have hci : s.current k = some c := hseated i k _ y hi hy (h.holds i k c y hi hy).2
  have hcj : s.current k = some c' := hseated j k _ y' hj hy' (h.holds j k c' y' hj hy').2
  have hc : c = c' := Option.some.inj (hci.symm.trans hcj)
  subst hc
  have hholder : some i = some j :=
    (h.holds i k c y hi hy).1.symm.trans (h.holds j k c y hj hy).1
  exact Option.some.inj hholder

/-- Who has no attempt under way may change seats. -/
theorem FlightsInv.setSeat {s : Flights κ} (h : FlightsInv s) {i : Nat} {p : Option (κ × Seat)}
    (hidle : ∀ k c, s.seats i ≠ some (k, .loading c))
    (hp : ∀ k t, p = some (k, t) → ∃ c y, t = .waiting c ∧ s.cells c = some y ∧ y.key = k) :
    FlightsInv (s.setSeat i p) where
  seated := fun j k t hj => by
    rcases Flights.seats_setSeat hj with ⟨-, heq⟩ | ⟨-, hj⟩
    · rcases hp k t heq with ⟨c, y, rfl, hy, hkey⟩
      exact ⟨y, hy, hkey⟩
    · exact h.seated j k t hj
  holds := fun j k c y hj hy => by
    rcases Flights.seats_setSeat hj with ⟨-, heq⟩ | ⟨-, hj⟩
    · rcases hp k _ heq with ⟨c', -, hwaits, -⟩
      cases hwaits
    · exact h.holds j k c y hj hy
  held := fun c y j hy hholder => by
    rcases h.held c y j hy hholder with ⟨k, hj⟩
    have hne : j ≠ i := by
      rintro rfl
      exact hidle k c hj
    exact ⟨k, by rw [Flights.seats_setSeat_ne hne, hj]⟩
  keyed := h.keyed
  fresh := h.fresh

theorem FlightsInv.board {s : Flights κ} (h : FlightsInv s) {i : Nat} {k : κ} {c : Nat}
    {y : SeatCell κ} (hseat : s.seats i = some (k, .waiting c)) (hy : s.cells c = some y)
    (hunfilled : y.filled = false) (hfree : y.holder = none) : FlightsInv (s.board i k c y) := by
  have hstays : ∀ {c' k'}, (∃ z, s.cells c' = some z ∧ z.key = k') →
      ∃ z, (s.board i k c y).cells c' = some z ∧ z.key = k' := fun hz =>
    Flights.keyed_setCell (w := { y with holder := some i }) hy rfl hz
  refine ⟨?_, ?_, ?_, fun k' c' hc' => hstays (h.keyed k' c' hc'), ?_⟩
  · intro j k' t hj
    rcases Flights.seats_setSeat hj with ⟨-, heq⟩ | ⟨-, hj⟩
    · cases heq
      have hold : ∃ z, s.cells c = some z ∧ z.key = k := h.seated i k (.waiting c) hseat
      exact hstays hold
    · exact hstays (h.seated j k' t hj)
  · intro j k' c' z hj hz
    rcases Flights.seats_setSeat hj with ⟨rfl, heq⟩ | ⟨-, hj⟩
    · cases heq
      rcases Flights.cells_setCell hz with ⟨-, rfl⟩ | ⟨hne, -⟩
      · exact ⟨rfl, hunfilled⟩
      · exact absurd rfl hne
    · rcases Flights.cells_setCell hz with ⟨rfl, -⟩ | ⟨-, hz⟩
      · -- nobody else holds a permit that is free
        have hholder := (h.holds j k' c' y hj hy).1
        rw [hfree] at hholder
        cases hholder
      · exact h.holds j k' c' z hj hz
  · intro c' z j hz hholder
    rcases Flights.cells_setCell hz with ⟨rfl, rfl⟩ | ⟨-, hz⟩
    · cases hholder
      exact ⟨k, by simp [Flights.board, Flights.setSeat]⟩
    · rcases h.held c' z j hz hholder with ⟨k', hj⟩
      have hne : j ≠ i := by
        rintro rfl
        cases hseat.symm.trans hj
      exact ⟨k', (Flights.seats_setSeat_ne hne _).trans hj⟩
  · intro c' hc'
    have hne : c' ≠ c := by
      rintro rfl
      cases (h.fresh c' hc').symm.trans hy
    exact (Flights.cells_setCell_ne hne _).trans (h.fresh c' hc')

theorem FlightsInv.land {s : Flights κ} (h : FlightsInv s) {i : Nat} {k : κ} {c : Nat}
    {y : SeatCell κ} (b : Bool) (hseat : s.seats i = some (k, .loading c))
    (hy : s.cells c = some y) : FlightsInv (s.land i c y b) := by
  have hstays : ∀ {c' k'}, (∃ z, s.cells c' = some z ∧ z.key = k') →
      ∃ z, (s.land i c y b).cells c' = some z ∧ z.key = k' := fun hz =>
    Flights.keyed_setCell (w := { y with filled := b, holder := none }) hy rfl hz
  refine ⟨?_, ?_, ?_, fun k' c' hc' => hstays (h.keyed k' c' hc'), ?_⟩
  · intro j k' t hj
    rcases Flights.seats_setSeat hj with ⟨-, heq⟩ | ⟨-, hj⟩
    · cases heq
    · exact hstays (h.seated j k' t hj)
  · intro j k' c' z hj hz
    rcases Flights.seats_setSeat hj with ⟨-, heq⟩ | ⟨hne, hj⟩
    · cases heq
    · rcases Flights.cells_setCell hz with ⟨rfl, -⟩ | ⟨-, hz⟩
      · -- a cell has one holder, and it has just landed
        have hholder : some j = some i :=
          (h.holds j k' c' y hj hy).1.symm.trans (h.holds i k c' y hseat hy).1
        exact absurd (Option.some.inj hholder) hne
      · exact h.holds j k' c' z hj hz
  · intro c' z j hz hholder
    rcases Flights.cells_setCell hz with ⟨-, rfl⟩ | ⟨hc, hz⟩
    · cases hholder
    · rcases h.held c' z j hz hholder with ⟨k', hj⟩
      have hne : j ≠ i := by
        rintro rfl
        cases hseat.symm.trans hj
        exact hc rfl
      exact ⟨k', (Flights.seats_setSeat_ne hne _).trans hj⟩
  · intro c' hc'
    have hne : c' ≠ c := by
      rintro rfl
      cases (h.fresh c' hc').symm.trans hy
    exact (Flights.cells_setCell_ne hne _).trans (h.fresh c' hc')

end Invariant

/-! ## The moves -/

section Moves

variable {κ : Type} [DecidableEq κ]

/-- What a step can do; the label is the key that it forgets. -/
inductive FlightMove (s : Flights κ) : Option κ → Flights κ → Prop where
  | still : FlightMove s none s
  | join {i : Nat} {k : κ} {c : Nat} (hcurrent : s.current k = some c) (haway : s.seats i = none) :
      FlightMove s none (s.setSeat i (some (k, .waiting c)))
  | launch {i : Nat} {k : κ} (hcurrent : s.current k = none) (haway : s.seats i = none) :
      FlightMove s none (s.launch i k)
  | board {i : Nat} {k : κ} {c : Nat} {y : SeatCell κ} (hseat : s.seats i = some (k, .waiting c))
      (hy : s.cells c = some y) (hunfilled : y.filled = false) (hfree : y.holder = none) :
      FlightMove s none (s.board i k c y)
  | land {i : Nat} {k : κ} {c : Nat} {y : SeatCell κ} (b : Bool)
      (hseat : s.seats i = some (k, .loading c)) (hy : s.cells c = some y) :
      FlightMove s none (s.land i c y b)
  | leave {i : Nat} {k : κ} {c : Nat} (hseat : s.seats i = some (k, .waiting c)) :
      FlightMove s none (s.setSeat i none)
  | forget (k : κ) : FlightMove s (some k) (s.forget k)

theorem FlightsInv.launch {s : Flights κ} (h : FlightsInv s) {i : Nat} {k : κ}
    (haway : s.seats i = none) : FlightsInv (s.launch i k) := by
  -- the cell is a new one, so every other one stays as it is
  have hnew : ∀ {c y}, s.cells c = some y → c ≠ s.made := by
    rintro c y hy rfl
    rw [h.fresh _ (Nat.le_refl _)] at hy
    cases hy
  have hstays : ∀ {c k'}, (∃ y, s.cells c = some y ∧ y.key = k') →
      ∃ y, (s.launch i k).cells c = some y ∧ y.key = k' := by
    rintro c k' ⟨y, hy, hkey⟩
    exact ⟨y, (Flights.cells_setCell_ne (hnew hy) _).trans hy, hkey⟩
  constructor
  case seated =>
    intro j k' t hj
    rcases Flights.seats_setSeat hj with ⟨-, heq⟩ | ⟨-, hj⟩
    · cases heq
      exact ⟨_, Flights.cells_setCell_self _ _ _, rfl⟩
    · exact hstays (h.seated j k' t hj)
  case holds =>
    intro j k' c y hj hy
    rcases Flights.seats_setSeat hj with ⟨-, heq⟩ | ⟨-, hj⟩
    · cases heq
    · rcases h.seated j k' _ hj with ⟨z, hz, -⟩
      rcases Flights.cells_setCell hy with ⟨rfl, -⟩ | ⟨-, hy⟩
      · exact absurd rfl (hnew hz)
      · exact h.holds j k' c y hj hy
  case held =>
    intro c y j hy hholder
    rcases Flights.cells_setCell hy with ⟨-, rfl⟩ | ⟨-, hy⟩
    · cases hholder
    · rcases h.held c y j hy hholder with ⟨k', hj⟩
      have hne : j ≠ i := by
        rintro rfl
        rw [haway] at hj
        cases hj
      exact ⟨k', (Flights.seats_setSeat_ne hne _).trans hj⟩
  case keyed =>
    intro k' c hc
    by_cases hk : k' = k
    · subst hk
      have heq : s.made = c := by simpa [Flights.launch] using hc
      rw [← heq]
      exact ⟨_, Flights.cells_setCell_self _ _ _, rfl⟩
    · exact hstays (h.keyed k' c (by simpa [Flights.launch, hk] using hc))
  case fresh =>
    intro c hc
    have hlt : s.made < c := hc
    exact (Flights.cells_setCell_ne (Nat.ne_of_gt hlt) _).trans (h.fresh c (Nat.le_of_lt hlt))

/-- Every move keeps the flights in order. -/
theorem FlightMove.inv {s s' : Flights κ} {f : Option κ} (hmove : FlightMove s f s')
    (h : FlightsInv s) : FlightsInv s' := by
  cases hmove with
  | still => exact h
  | @join i k c hcurrent haway =>
      refine h.setSeat (fun k' c' hseat => ?_) fun k' t heq => ?_
      · rw [haway] at hseat
        cases hseat
      · cases heq
        rcases h.keyed k c hcurrent with ⟨y, hy, hkey⟩
        exact ⟨c, y, rfl, hy, hkey⟩
  | launch hcurrent haway => exact h.launch haway
  | board hseat hy hunfilled hfree => exact h.board hseat hy hunfilled hfree
  | land b hseat hy => exact h.land b hseat hy
  | @leave i k c hseat =>
      refine h.setSeat (fun k' c' hloads => ?_) fun k' t heq => ?_
      · cases hseat.symm.trans hloads
      · cases heq
  | forget k =>
      refine ⟨h.seated, h.holds, h.held, fun k' c hc => ?_, h.fresh⟩
      by_cases hk : k' = k
      · subst hk
        simp [Flights.forget] at hc
      · exact h.keyed k' c (by simpa [Flights.forget, hk] using hc)

/-- Unless a key is forgotten while someone still sits at its unfilled cell, who sits at an unfilled
cell sits at the current one. -/
theorem FlightMove.seated {s s' : Flights κ} {f : Option κ} (hmove : FlightMove s f s')
    (h : FlightsInv s) (hseated : Seated s) (hcond : ∀ k, f = some k → s.Idle k) : Seated s' := by
  cases hmove with
  | still => exact hseated
  | @join i k c hcurrent haway =>
      intro j k' t y hj hy hunfilled
      rcases Flights.seats_setSeat hj with ⟨-, heq⟩ | ⟨-, hj⟩
      · cases heq
        exact hcurrent
      · exact hseated j k' t y hj hy hunfilled
  | @launch i k hcurrent haway =>
      intro j k' t y hj hy hunfilled
      rcases Flights.seats_setSeat hj with ⟨-, heq⟩ | ⟨-, hj⟩
      · cases heq
        simp [Flights.launch, Seat.cell]
      · rcases h.seated j k' t hj with ⟨z, hz, -⟩
        rcases Flights.cells_setCell hy with ⟨hmade, -⟩ | ⟨-, hy⟩
        · cases (h.fresh t.cell (Nat.le_of_eq hmade.symm)).symm.trans hz
        · have hold : s.current k' = some t.cell := hseated j k' t y hj hy hunfilled
          have hne : k' ≠ k := by
            rintro rfl
            rw [hcurrent] at hold
            cases hold
          simpa [Flights.launch, hne] using hold
  | @board i k c x hseat hx hunfilled' hfree =>
      intro j k' t y hj hy hunfilled
      rcases Flights.seats_setSeat hj with ⟨-, heq⟩ | ⟨-, hj⟩
      · cases heq
        have hold : s.current k = some c := hseated i k (.waiting c) x hseat hx hunfilled'
        exact hold
      · rcases Flights.cells_setCell hy with ⟨hc, -⟩ | ⟨-, hy⟩
        · exact hseated j k' t x hj (hc ▸ hx) hunfilled'
        · exact hseated j k' t y hj hy hunfilled
  | @land i k c x b hseat hx =>
      intro j k' t y hj hy hunfilled
      rcases Flights.seats_setSeat hj with ⟨-, heq⟩ | ⟨-, hj⟩
      · cases heq
      · rcases Flights.cells_setCell hy with ⟨hc, -⟩ | ⟨-, hy⟩
        · exact hseated j k' t x hj (hc ▸ hx) (h.holds i k c x hseat hx).2
        · exact hseated j k' t y hj hy hunfilled
  | @leave i k c hseat =>
      intro j k' t y hj hy hunfilled
      rcases Flights.seats_setSeat hj with ⟨-, heq⟩ | ⟨-, hj⟩
      · cases heq
      · exact hseated j k' t y hj hy hunfilled
  | forget k =>
      intro j k' t y hj hy hunfilled
      have hold : s.current k' = some t.cell := hseated j k' t y hj hy hunfilled
      have hne : k' ≠ k := by
        -- the one who sits there keeps the key from being forgotten
        rintro rfl
        exact hcond k' rfl t.cell y j k' t hold hy hunfilled hj rfl
      simpa [Flights.forget, hne] using hold

end Moves

end FunctionWasm
