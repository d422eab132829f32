import FunctionWasm.Foundation.Cedar

/-!
# CedarText — permits as they are written

A fragment of Cedar's text: comments, and permits for everyone that name one action, ask of the
resource that it be an entity or in one, and of the context that one of some tests holds.

* `lex` is the lexer, a run of `step` over the characters.
* `read` reads a text of the fragment, `Permit.render` writes a permit.
* `read_of_reads` is the round trip of lines that are each a comment or a permit.
* `PolicyParser` is a parser that reads the fragment as it is meant, `isAuthorized_iff` the decision
  of what it reads.

Texts between quotes are those without an escape.
-/

namespace FunctionWasm
namespace Cedar

/-! ## Tokens -/

inductive Mark where
  | lparen
  | rparen
  | lbrace
  | rbrace
  | comma
  | semicolon
  | dot
  | equals
  | path
  | or
  deriving DecidableEq

inductive Token where
  | word (t : Text)
  | str (t : Text)
  | mark (m : Mark)
  deriving DecidableEq

/-- The marks of one character. -/
def Mark.single : Char → Option Mark
  | '(' => some lparen
  | ')' => some rparen
  | '{' => some lbrace
  | '}' => some rbrace
  | ',' => some comma
  | ';' => some semicolon
  | '.' => some dot
  | _ => none

/-- The marks of a character twice. -/
def Mark.double : Char → Option Mark
  | '=' => some equals
  | ':' => some path
  | '|' => some or
  | _ => none

/-- What the lexer is in the middle of. -/
inductive Mode where
  | start
  | word (t : Text)
  | str (t : Text)
  | twice (c : Char)
  | comment
  deriving DecidableEq

def isWordStart (c : Char) : Bool := c.isAlpha || c = '_'

def isWordChar (c : Char) : Bool := c.isAlphanum || c = '_'

/-- The first character of what comes next. -/
def opening (c : Char) : Option (List Token × Mode) :=
  if c = ' ' ∨ c = '\n' then some ([], .start)
  else if isWordStart c then some ([], .word [c])
  else if c = '"' then some ([], .str [])
  else if c = '/' ∨ (Mark.double c).isSome then some ([], .twice c)
  else (Mark.single c).map fun m => ([.mark m], .start)

/-- The tokens that a character completes, and what it is in the middle of. -/
def step : Mode → Char → Option (List Token × Mode)
  | .start, c => opening c
  | .word t, c =>
      if isWordChar c then some ([], .word (t ++ [c]))
      else (opening c).map fun p => (.word t :: p.1, p.2)
  | .str t, c =>
      if c = '"' then some ([.str t], .start)
      -- an escape is outside of the fragment, a bare carriage return is an error
      else if c = '\\' ∨ c = '\r' then none
      else some ([], .str (t ++ [c]))
  | .twice d, c =>
      if c ≠ d then none
      else if d = '/' then some ([], .comment)
      else (Mark.double d).map fun m => ([.mark m], .start)
  | .comment, c => some ([], if c = '\n' ∨ c = '\r' then .start else .comment)

def run (m : Mode) : Text → Option (List Token × Mode)
  | [] => some ([], m)
  | c :: rest => do
      let p ← step m c
      let q ← run p.2 rest
      return (p.1 ++ q.1, q.2)

/-- What is left at the end. -/
def finish : Mode → Option (List Token)
  | .word t => some [.word t]
  | .start | .comment => some []
  | .str _ | .twice _ => none

def lex (t : Text) : Option (List Token) := do
  let p ← run .start t
  let last ← finish p.2
  return p.1 ++ last

/-- A text is run through piece by piece. -/
theorem run_append {m m' m'' : Mode} {a b : Text} {ts us : List Token} (ha : run m a = some (ts, m'))
    (hb : run m' b = some (us, m'')) : run m (a ++ b) = some (ts ++ us, m'') := by
  induction a generalizing m ts with
  | nil =>
      cases ha
      exact hb
  | cons c rest ih =>
      simp only [run, Option.bind_eq_bind, Option.bind_eq_some_iff] at ha
      rcases ha with ⟨⟨now, next⟩, hstep, ⟨later, last⟩, hrest, ha⟩
      cases ha
      rw [List.cons_append, run, hstep]
      simp [ih hrest]

theorem run_cons {m m' m'' : Mode} {c : Char} {rest : Text} {ts us : List Token}
    (hstep : step m c = some (ts, m')) (hrest : run m' rest = some (us, m'')) :
    run m (c :: rest) = some (ts ++ us, m'') := by
  rw [run, hstep]
  simp [hrest]

/-! ## Words and texts between quotes -/

/-- What stands between quotes as it is, on one line. -/
def Plain (t : Text) : Prop :=
  '"' ∉ t ∧ '\\' ∉ t ∧ '\n' ∉ t ∧ '\r' ∉ t

instance (t : Text) : Decidable (Plain t) :=
  inferInstanceAs (Decidable (_ ∧ _ ∧ _ ∧ _))

def quote (t : Text) : Text := '"' :: (t ++ ['"'])

theorem run_str {seen t : Text} (h : Plain t) :
    run (.str seen) (t ++ ['"']) = some ([.str (seen ++ t)], .start) := by
  induction t generalizing seen with
  | nil => simp [run, step]
  | cons c t ih =>
      rcases h with ⟨hquote, hescape, hline, hreturn⟩
      simp only [List.mem_cons, not_or] at hquote hescape hline hreturn
      have hstep : step (.str seen) c = some ([], .str (seen ++ [c])) := by
        simp [step, Ne.symm hquote.1, Ne.symm hescape.1, Ne.symm hreturn.1]
      have hrest := @ih (seen ++ [c]) ⟨hquote.2, hescape.2, hline.2, hreturn.2⟩
      rw [List.append_assoc] at hrest
      exact run_cons hstep hrest

theorem run_quote {t : Text} (h : Plain t) : run .start (quote t) = some ([.str t], .start) := by
  have hstart : step .start '"' = some ([], .str []) := rfl
  have hrest := @run_str [] t h
  exact run_cons hstart hrest

/-- The words that name nothing. -/
def reserved : List Text :=
  ["true".toList, "false".toList, "if".toList, "then".toList, "else".toList, "in".toList,
    "is".toList, "like".toList, "has".toList, "__cedar".toList]

def isIdentifier : Text → Bool
  | [] => false
  | c :: rest => isWordStart c && rest.all isWordChar && c :: rest ∉ reserved

theorem run_word {seen rest : Text} (h : rest.all isWordChar = true) :
    run (.word seen) rest = some ([], .word (seen ++ rest)) := by
  induction rest generalizing seen with
  | nil => simp [run]
  | cons c rest ih =>
      rw [List.all_cons, Bool.and_eq_true] at h
      have hstep : step (.word seen) c = some ([], .word (seen ++ [c])) := if_pos h.1
      have hrest := @ih (seen ++ [c]) h.2
      rw [List.append_assoc] at hrest
      exact run_cons hstep hrest

theorem run_identifier {t : Text} (h : isIdentifier t = true) :
    run .start t = some ([], .word t) := by
  cases t with
  | nil => cases h
  | cons c rest =>
      simp only [isIdentifier, Bool.and_eq_true] at h
      have hblank : ¬ (c = ' ' ∨ c = '\n') := by
        rintro (rfl | rfl) <;> exact absurd h.1.1 (by decide)
      have hopen : step .start c = some ([], .word [c]) := by
        simp only [step, opening, if_neg hblank, if_pos h.1.1]
      exact run_cons hopen (run_word h.1.2)

/-! ## Permits -/

/-- What a permit asks of the resource. -/
inductive Reach where
  | any
  | eq (u : EntityUid)
  | mem (u : EntityUid)
  deriving DecidableEq

def Reach.scope : Reach → Scope
  | any => .any
  | eq u => .eq u
  | mem u => .mem u

/-- What a permit asks of the context. -/
inductive Test where
  | equals (attr value : Text)
  | has (attr : Text)
  deriving DecidableEq

/-- A permit for everyone; where there are tests, one of them has to hold. -/
structure Permit where
  action : Text
  resource : Reach
  tests : List Test
  deriving DecidableEq

def entityText (u : EntityUid) : Text := u.typeName ++ "::".toList ++ quote u.id

def Reach.render : Reach → Text
  | any => []
  | eq u => " == ".toList ++ entityText u
  | mem u => " in ".toList ++ entityText u

def Test.render : Test → Text
  | equals attr value => "context.".toList ++ attr ++ " == ".toList ++ quote value
  | has attr => "context has ".toList ++ attr

def whenAny (tests : List Test) : Text :=
  if tests = [] then []
  else " when \x7b ".toList ++ " || ".toList.intercalate (tests.map Test.render) ++ " \x7d".toList

def permitHead : Text := "permit (principal, action == Action::".toList

def Permit.render (p : Permit) : Text :=
  permitHead ++ quote p.action ++ ", resource".toList ++
    p.resource.render ++ ")".toList ++ whenAny p.tests ++ ";".toList

/-- A permit for one entity and what is in it, around the entity's name. -/
theorem Permit.render_mem (action type name : Text) {head : Text}
    (h : permitHead ++ quote action ++ ", resource".toList ++ " in ".toList ++ type ++ "::\"".toList =
      head) :
    head ++ (name ++ "\");".toList) = (Permit.mk action (.mem ⟨type, name⟩) []).render := by
  subst h
  simp [Permit.render, Reach.render, entityText, quote, whenAny]

theorem Permit.render_eq (action type name : Text) (tests : List Test) {head : Text}
    (h : permitHead ++ quote action ++ ", resource".toList ++ " == ".toList ++ type ++ "::\"".toList =
      head) :
    head ++ (name ++ ("\")".toList ++ (whenAny tests ++ ";".toList))) =
      (Permit.mk action (.eq ⟨type, name⟩) tests).render := by
  subst h
  simp [Permit.render, Reach.render, entityText, quote]

def entityTokens (u : EntityUid) : List Token := [.word u.typeName, .mark .path, .str u.id]

def Reach.tokens : Reach → List Token
  | any => []
  | eq u => .mark .equals :: entityTokens u
  | mem u => .word "in".toList :: entityTokens u

def Test.tokens : Test → List Token
  | equals attr value =>
      [.word "context".toList, .mark .dot, .word attr, .mark .equals, .str value]
  | has attr => [.word "context".toList, .word "has".toList, .word attr]

def whenTokens (tests : List Test) : List Token :=
  if tests = [] then []
  else
    .word "when".toList :: .mark .lbrace ::
      ([Token.mark .or].intercalate (tests.map Test.tokens) ++ [.mark .rbrace])

/-- A permit up to its semicolon. -/
def Permit.tokens (p : Permit) : List Token :=
  .word "permit".toList :: .mark .lparen :: .word "principal".toList :: .mark .comma ::
    .word "action".toList :: .mark .equals :: .word "Action".toList :: .mark .path ::
      .str p.action :: .mark .comma :: .word "resource".toList ::
        (p.resource.tokens ++ .mark .rparen :: whenTokens p.tests)

/-- The permits that are written as they are meant. -/
structure Permit.Written (p : Permit) : Prop where
  action : Plain p.action
  resource : ∀ u, p.resource = .eq u ∨ p.resource = .mem u →
    isIdentifier u.typeName = true ∧ Plain u.id
  equals : ∀ attr value, .equals attr value ∈ p.tests → isIdentifier attr = true ∧ Plain value
  has : ∀ attr, .has attr ∈ p.tests → isIdentifier attr = true

theorem run_entity {u : EntityUid} (htype : isIdentifier u.typeName = true) (hid : Plain u.id) :
    run .start (entityText u) = some (entityTokens u, .start) := by
  have hpath : run (.word u.typeName) "::".toList =
      some ([.word u.typeName, .mark .path], .start) := rfl
  exact run_append (run_append (run_identifier htype) hpath) (run_quote hid)

/-- The resource, from the blank before it to the parenthesis after it. -/
theorem run_reach {r : Reach}
    (h : ∀ u, r = .eq u ∨ r = .mem u → isIdentifier u.typeName = true ∧ Plain u.id) :
    run (.word "resource".toList) (r.render ++ ")".toList) =
      some (.word "resource".toList :: (r.tokens ++ [.mark .rparen]), .start) := by
  have hclose : run .start ")".toList = some ([.mark .rparen], .start) := rfl
  cases r with
  | any => rfl
  | eq u =>
      have hopen : run (.word "resource".toList) " == ".toList =
          some ([.word "resource".toList, .mark .equals], .start) := rfl
      have hentity := h u (.inl rfl)
      exact run_append (run_append hopen (run_entity hentity.1 hentity.2)) hclose
  | mem u =>
      have hopen : run (.word "resource".toList) " in ".toList =
          some ([.word "resource".toList, .word "in".toList], .start) := rfl
      have hentity := h u (.inr rfl)
      exact run_append (run_append hopen (run_entity hentity.1 hentity.2)) hclose

/-- A test, up to the blank after it. -/
theorem run_test {t : Test}
    (hequals : ∀ attr value, t = .equals attr value → isIdentifier attr = true ∧ Plain value)
    (hhas : ∀ attr, t = .has attr → isIdentifier attr = true) :
    run .start (t.render ++ " ".toList) = some (t.tokens, .start) := by
  cases t with
  | equals attr value =>
      rcases hequals attr value rfl with ⟨hattr, hvalue⟩
      have hcontext : run .start "context.".toList =
          some ([.word "context".toList, .mark .dot], .start) := rfl
      have hcompare : run (.word attr) " == ".toList =
          some ([.word attr, .mark .equals], .start) := rfl
      have hblank : run .start " ".toList = some ([], .start) := rfl
      have hall := run_append (run_append (run_append (run_append hcontext (run_identifier hattr))
        hcompare) (run_quote hvalue)) hblank
      exact hall
  | has attr =>
      have hcontext : run .start "context has ".toList =
          some ([.word "context".toList, .word "has".toList], .start) := rfl
      have hblank : run (.word attr) " ".toList = some ([.word attr], .start) := rfl
      exact run_append (run_append hcontext (run_identifier (hhas attr rfl))) hblank

theorem run_tests {t : Test} {tests : List Test}
    (h : ∀ x ∈ t :: tests,
      run .start (x.render ++ " ".toList) = some (x.tokens, .start)) :
    run .start (" || ".toList.intercalate ((t :: tests).map Test.render) ++ " ".toList) =
      some ([Token.mark .or].intercalate ((t :: tests).map Test.tokens), .start) := by
  induction tests generalizing t with
  | nil =>
      have hlast := h t (by simp)
      simpa only [List.map_cons, List.map_nil, List.intercalate_singleton] using hlast
  | cons u tests ih =>
      have hfirst := h t (by simp)
      have hor : run .start "|| ".toList = some ([.mark .or], .start) := rfl
      have hrest := ih fun x hx => h x (List.mem_cons_of_mem t hx)
      have hall := run_append (run_append hfirst hor) hrest
      have hblank : t.render ++ " ".toList ++ "|| ".toList = t.render ++ " || ".toList := by
        rw [List.append_assoc]
        rfl
      rw [hblank] at hall
      simpa only [List.map_cons, List.intercalate_cons_cons, List.append_assoc] using hall

/-- The clause, from the blank before it to the semicolon after it. -/
theorem run_when {tests : List Test}
    (h : ∀ x ∈ tests, run .start (x.render ++ " ".toList) = some (x.tokens, .start)) :
    run .start (whenAny tests ++ ";".toList) =
      some (whenTokens tests ++ [.mark .semicolon], .start) := by
  cases tests with
  | nil => rfl
  | cons t tests =>
      have hopen : run .start " when \x7b ".toList =
          some ([.word "when".toList, .mark .lbrace], .start) := rfl
      have hclose : run .start "\x7d;".toList =
          some ([.mark .rbrace, .mark .semicolon], .start) := rfl
      have hall := run_append (run_append hopen (run_tests h)) hclose
      have hend : " \x7d".toList ++ ";".toList = " ".toList ++ "\x7d;".toList := rfl
      simp only [whenAny, whenTokens, reduceCtorEq, if_false, List.append_assoc, hend] at hall ⊢
      simpa using hall

theorem Permit.Written.run_test {p : Permit} (h : p.Written) {t : Test} (ht : t ∈ p.tests) :
    run .start (t.render ++ " ".toList) = some (t.tokens, .start) :=
  Cedar.run_test (fun _ _ heq => h.equals _ _ (heq ▸ ht)) fun _ heq => h.has _ (heq ▸ ht)

theorem run_permit {p : Permit} (h : p.Written) :
    run .start p.render = some (p.tokens ++ [.mark .semicolon], .start) := by
  have hhead : run .start permitHead =
      some ([.word "permit".toList, .mark .lparen, .word "principal".toList, .mark .comma,
        .word "action".toList, .mark .equals, .word "Action".toList, .mark .path], .start) := rfl
  have hresource : run .start ", resource".toList =
      some ([.mark .comma], .word "resource".toList) := rfl
  have hwhen := run_when fun t ht => h.run_test ht
  have haction := run_append (run_append hhead (run_quote h.action)) hresource
  have hall := run_append (run_append haction (run_reach h.resource)) hwhen
  have htext : p.render = permitHead ++ quote p.action ++ ", resource".toList ++
      (p.resource.render ++ ")".toList) ++ (whenAny p.tests ++ ";".toList) := by
    simp only [Permit.render, List.append_assoc]
  rw [htext, hall]
  simp [Permit.tokens]

/-! ## Reading -/

def readTest : List Token → Option Test
  | [.word context, .mark .dot, .word attr, .mark .equals, .str value] =>
      if context = "context".toList ∧ attr ∉ reserved then some (.equals attr value) else none
  | [.word context, .word has, .word attr] =>
      if context = "context".toList ∧ has = "has".toList ∧ attr ∉ reserved then some (.has attr)
      else none
  | _ => none

/-- What comes after the closing parenthesis, up to the semicolon. -/
def readWhen : List Token → Option (List Test)
  | [] => some []
  | .word when_ :: .mark .lbrace :: rest =>
      if when_ = "when".toList ∧ rest.getLast? = some (.mark .rbrace) then
        (rest.dropLast.splitOn (.mark .or)).mapM readTest
      else none
  | _ => none

def readReach : List Token → Option (Reach × List Token)
  | .mark .rparen :: rest => some (.any, rest)
  | .mark .equals :: .word typeName :: .mark .path :: .str id :: .mark .rparen :: rest =>
      if typeName ∉ reserved then some (.eq ⟨typeName, id⟩, rest) else none
  | .word in_ :: .word typeName :: .mark .path :: .str id :: .mark .rparen :: rest =>
      if in_ = "in".toList ∧ typeName ∉ reserved then some (.mem ⟨typeName, id⟩, rest) else none
  | _ => none

/-- The words of a permit's head, in order. -/
def headWords : List Text :=
  ["permit".toList, "principal".toList, "action".toList, "Action".toList, "resource".toList]

def readPermit : List Token → Option Permit
  | .word permit :: .mark .lparen :: .word principal :: .mark .comma :: .word action ::
        .mark .equals :: .word type :: .mark .path :: .str id :: .mark .comma ::
        .word resource :: rest =>
      if [permit, principal, action, type, resource] = headWords then do
        let (reach, rest) ← readReach rest
        let tests ← readWhen rest
        return ⟨id, reach, tests⟩
      else none
  | _ => none

/-- A text of the fragment: each of its permits ends in a semicolon. -/
def read (t : Text) : Option (List Permit) := do
  let ts ← lex t
  let pieces := ts.splitOn (.mark .semicolon)
  if pieces.getLast? = some [] then pieces.dropLast.mapM readPermit else none

theorem not_reserved {t : Text} (h : isIdentifier t = true) : t ∉ reserved := by
  cases t with
  | nil => cases h
  | cons c rest =>
      simp only [isIdentifier, Bool.and_eq_true, decide_eq_true_eq] at h
      exact h.2

theorem Permit.Written.readTest {p : Permit} (h : p.Written) {t : Test} (ht : t ∈ p.tests) :
    readTest t.tokens = some t := by
  cases t with
  | equals attr value => exact if_pos ⟨rfl, not_reserved (h.equals attr value ht).1⟩
  | has attr => exact if_pos ⟨rfl, rfl, not_reserved (h.has attr ht)⟩

theorem mapM_readTest {tests : List Test} (h : ∀ t ∈ tests, readTest t.tokens = some t) :
    (tests.map Test.tokens).mapM readTest = some tests := by
  induction tests with
  | nil => rfl
  | cons t tests ih =>
      have hrest := ih fun x hx => h x (List.mem_cons_of_mem t hx)
      simp [h t, hrest]

theorem or_notMem {t : Test} : Token.mark .or ∉ t.tokens := by
  cases t <;> simp [Test.tokens]

theorem readWhen_tokens {tests : List Test} (h : ∀ t ∈ tests, readTest t.tokens = some t) :
    readWhen (whenTokens tests) = some tests := by
  cases tests with
  | nil => rfl
  | cons t tests =>
      have hnone : ∀ l ∈ (t :: tests).map Test.tokens, Token.mark .or ∉ l :=
        List.forall_mem_map.2 fun _ _ => or_notMem
      have hsplit := List.splitOn_intercalate (Token.mark .or) hnone (by simp)
      rw [whenTokens, if_neg (List.cons_ne_nil t tests), readWhen,
        if_pos ⟨rfl, List.getLast?_concat⟩, List.dropLast_concat, hsplit]
      exact mapM_readTest h

theorem readReach_tokens {r : Reach} (rest : List Token)
    (h : ∀ u, r = .eq u ∨ r = .mem u → isIdentifier u.typeName = true ∧ Plain u.id) :
    readReach (r.tokens ++ .mark .rparen :: rest) = some (r, rest) := by
  cases r with
  | any => rfl
  | eq u => exact if_pos (not_reserved (h u (.inl rfl)).1)
  | mem u => exact if_pos ⟨rfl, not_reserved (h u (.inr rfl)).1⟩

theorem readPermit_tokens {p : Permit} (h : p.Written) : readPermit p.tokens = some p := by
  have hreach := readReach_tokens (whenTokens p.tests) h.resource
  have hwhen := readWhen_tokens fun t ht => h.readTest ht
  have hwords : ["permit".toList, "principal".toList, "action".toList, "Action".toList,
      "resource".toList] = headWords := rfl
  unfold Permit.tokens readPermit
  dsimp only
  rw [if_pos hwords, hreach]
  simp [hwhen]

theorem semicolon_notMem {p : Permit} : Token.mark .semicolon ∉ p.tokens := by
  have htest : ∀ tests : List Test, Token.mark .semicolon ∉
      [Token.mark .or].intercalate (tests.map Test.tokens) := by
    intro tests
    induction tests with
    | nil => simp
    | cons t tests ih =>
        have ht : Token.mark .semicolon ∉ t.tokens := by cases t <;> simp [Test.tokens]
        cases tests with
        | nil => simpa using ht
        | cons u tests =>
            rw [List.map_cons] at ih ⊢
            rw [List.map_cons, List.intercalate_cons_cons]
            simp [ht, ih]
  have hreach : Token.mark .semicolon ∉ p.resource.tokens := by
    cases p.resource <;> simp [Reach.tokens, entityTokens]
  have hwhen : Token.mark .semicolon ∉ whenTokens p.tests := by
    unfold whenTokens
    split
    · simp
    · simp [htest]
  simp [Permit.tokens, hreach, hwhen]

/-! ## Lines -/

/-- Each line with what ends it. -/
def unlines (lines : List Text) : Text := lines.flatMap fun l => l ++ ['\n']

/-- Lines that are permits in this order, and comments. -/
structure Reads (lines : List Text) (ps : List Permit) : Prop where
  runs : run .start (unlines lines) =
    some (ps.flatMap fun p => p.tokens ++ [.mark .semicolon], .start)
  written : ∀ p ∈ ps, p.Written
  single : ∀ l ∈ lines, '\n' ∉ l

theorem line_notMem_identifier {t : Text} (h : isIdentifier t = true) : '\n' ∉ t := by
  cases t with
  | nil => simp
  | cons c rest =>
      simp only [isIdentifier, Bool.and_eq_true, List.all_eq_true] at h
      intro hmem
      rcases List.mem_cons.1 hmem with rfl | hmem
      · exact absurd h.1.1 (by decide)
      · exact absurd (h.1.2 _ hmem) (by decide)

theorem line_notMem_quote {t : Text} (h : Plain t) : '\n' ∉ quote t := by
  simp [quote, h.2.2.1]

theorem notMem_intercalate {c : Char} {sep : Text} {pieces : List Text} (hsep : c ∉ sep)
    (h : ∀ t ∈ pieces, c ∉ t) : c ∉ sep.intercalate pieces := by
  induction pieces with
  | nil => simp
  | cons t pieces ih =>
      rw [List.forall_mem_cons] at h
      cases pieces with
      | nil => simpa using h.1
      | cons u pieces =>
          rw [List.intercalate_cons_cons]
          exact List.not_mem_append (List.not_mem_append h.1 hsep) (ih h.2)

/-- A permit is written on one line. -/
theorem Permit.Written.single {p : Permit} (h : p.Written) : '\n' ∉ p.render := by
  have hentity : ∀ u, p.resource = .eq u ∨ p.resource = .mem u → '\n' ∉ entityText u := by
    intro u hu
    have hparts := h.resource u hu
    exact List.not_mem_append
      (List.not_mem_append (line_notMem_identifier hparts.1) (by decide))
      (line_notMem_quote hparts.2)
  have hreach : '\n' ∉ p.resource.render := by
    cases hr : p.resource with
    | any => exact List.not_mem_nil
    | eq u => exact List.not_mem_append (by decide) (hentity u (.inl hr))
    | mem u => exact List.not_mem_append (by decide) (hentity u (.inr hr))
  have htest : ∀ t ∈ p.tests, '\n' ∉ t.render := by
    intro t ht
    cases t with
    | equals attr value =>
        have hparts := h.equals attr value ht
        have hattr := List.not_mem_append (show '\n' ∉ "context.".toList by decide)
          (line_notMem_identifier hparts.1)
        exact List.not_mem_append (List.not_mem_append hattr (by decide))
          (line_notMem_quote hparts.2)
    | has attr => exact List.not_mem_append (by decide) (line_notMem_identifier (h.has attr ht))
  have hwhen : '\n' ∉ whenAny p.tests := by
    unfold whenAny
    split
    · exact List.not_mem_nil
    · have hbody := notMem_intercalate (show '\n' ∉ " || ".toList by decide)
        (List.forall_mem_map.2 htest)
      exact List.not_mem_append (List.not_mem_append (by decide) hbody) (by decide)
  have hhead : '\n' ∉ permitHead ++ quote p.action :=
    List.not_mem_append (by decide) (line_notMem_quote h.action)
  have hresource := List.not_mem_append
    (List.not_mem_append hhead (show '\n' ∉ ", resource".toList by decide)) hreach
  exact List.not_mem_append (List.not_mem_append (List.not_mem_append hresource (by decide)) hwhen)
    (by decide)

namespace Reads

theorem nil : Reads [] [] := ⟨rfl, by simp, by simp⟩

theorem eq_nil {ps : List Permit} (h : Reads [] ps) : ps = [] := by
  cases ps with
  | nil => rfl
  | cons p ps =>
      have htokens := congrArg Prod.fst (Option.some.inj h.runs)
      simp [Permit.tokens] at htokens

theorem append {ls ls' : List Text} {ps ps' : List Permit} (h : Reads ls ps)
    (h' : Reads ls' ps') : Reads (ls ++ ls') (ps ++ ps') where
  runs := by
    have hall := run_append h.runs h'.runs
    simpa only [unlines, List.flatMap_append] using hall
  written := List.forall_mem_append.2 ⟨h.written, h'.written⟩
  single := List.forall_mem_append.2 ⟨h.single, h'.single⟩

theorem comment {t : Text} (hline : '\n' ∉ t) (hreturn : '\r' ∉ t) :
    Reads ["//".toList ++ t] [] := by
  have hopen : run .start "//".toList = some ([], .comment) := rfl
  have hbody : ∀ s : Text, '\n' ∉ s → '\r' ∉ s → run .comment s = some ([], .comment) := by
    intro s
    induction s with
    | nil => intros; rfl
    | cons c s ih =>
        intro hl hr
        simp only [List.mem_cons, not_or] at hl hr
        have hstep : step .comment c = some ([], .comment) := by
          simp [step, Ne.symm hl.1, Ne.symm hr.1]
        exact run_cons hstep (ih hl.2 hr.2)
  have hend : run .comment ['\n'] = some ([], .start) := rfl
  have hall := run_append (run_append hopen (hbody t hline hreturn)) hend
  refine ⟨?_, by simp, by simpa using hline⟩
  simpa only [unlines, List.flatMap_cons, List.flatMap_nil, List.append_nil] using hall

theorem permit {p : Permit} (h : p.Written) : Reads [p.render] [p] := by
  have hend : run .start ['\n'] = some ([], .start) := rfl
  have hall := run_append (run_permit h) hend
  exact ⟨by simpa [unlines] using hall, by simpa using h, by simpa using h.single⟩

theorem permits {ps : List Permit} (h : ∀ p ∈ ps, p.Written) : Reads (ps.map Permit.render) ps := by
  induction ps with
  | nil => exact nil
  | cons p ps ih =>
      rw [List.forall_mem_cons] at h
      exact (permit h.1).append (ih h.2)

end Reads

theorem mapM_readPermit {ps : List Permit} (h : ∀ p ∈ ps, p.Written) :
    (ps.map Permit.tokens).mapM readPermit = some ps := by
  induction ps with
  | nil => rfl
  | cons p ps ih =>
      rw [List.forall_mem_cons] at h
      simp [readPermit_tokens h.1, ih h.2]

/-- Pieces that each end in a mark have it between them and an empty one after the last. -/
theorem flatMap_concat {α β : Type} (f : α → List β) (mark : β) (as : List α) :
    (as.flatMap fun a => f a ++ [mark]) = [mark].intercalate (as.map f ++ [[]]) := by
  induction as with
  | nil => rfl
  | cons a as ih =>
      rw [List.flatMap_cons, ih, List.map_cons, List.cons_append,
        List.intercalate_cons_of_ne_nil (by simp)]

theorem intercalate_unlines (lines : List Text) :
    ['\n'].intercalate (lines ++ [[]]) = unlines lines := by
  have hall := flatMap_concat id '\n' lines
  rw [List.map_id] at hall
  exact hall.symm

/-- Such a text falls into its lines. -/
theorem splitOn_unlines {lines : List Text} (h : ∀ l ∈ lines, '\n' ∉ l) :
    (unlines lines).splitOn '\n' = lines ++ [[]] := by
  rw [← intercalate_unlines]
  exact List.splitOn_intercalate '\n' (List.forall_mem_append.2 ⟨h, by simp⟩) (by simp)

/-- Such lines are read as their permits. -/
theorem read_of_reads {lines : List Text} {ps : List Permit} (h : Reads lines ps) :
    read (unlines lines) = some ps := by
  have hnone : ∀ l ∈ ps.map Permit.tokens ++ [[]], Token.mark .semicolon ∉ l :=
    List.forall_mem_append.2 ⟨List.forall_mem_map.2 fun _ _ => semicolon_notMem, by simp⟩
  have hsplit := List.splitOn_intercalate (Token.mark .semicolon) hnone (by simp)
  unfold read lex
  rw [h.runs, flatMap_concat]
  simp only [Option.bind_eq_bind, Option.bind_some, finish, List.append_nil, Option.pure_def]
  rw [hsplit, if_pos List.getLast?_concat, List.dropLast_concat]
  exact mapM_readPermit h.written

/-! ## Meaning -/

section Meaning

variable {ν : Type} [DecidableEq ν] (str : Text → ν)

/-- Whether a test holds; an attribute that is not there cannot be compared. -/
def Test.eval (context : List (Text × ν)) : Test → Option Bool
  | equals attr value => (context.lookup attr).map fun v => v = str value
  | has attr => some (context.lookup attr).isSome

/-- Tests with `||` between them: none after the first that holds is evaluated. -/
def evalAny (context : List (Text × ν)) : List Test → Option Bool
  | [] => some false
  | t :: rest =>
      (t.eval str context).bind fun b => if b then some true else evalAny context rest

def Permit.clauseHolds (p : Permit) (context : List (Text × ν)) : Bool :=
  p.tests = [] ∨ evalAny str context p.tests = some true

variable {ε : Type} [Expressions ε ν]

/-- A policy is the one that a permit says. -/
structure Means (p : Policy ε) (q : Permit) : Prop where
  effect : p.effect = .permit
  principal : p.principal = .any
  action : p.action = .eq ⟨"Action".toList, q.action⟩
  resource : p.resource = q.resource.scope
  clause : ∀ r s, (p.conditions.all fun c => c.holds r s) = q.clauseHolds str r.context

/-- A parser of Cedar's text that reads the fragment as it is meant. -/
class PolicyParser (ε : Type) [Expressions ε ν] where
  parse : Text → Except Text (PolicySet ε)
  parse_of_read : ∀ {t : Text} {qs : List Permit}, read t = some qs →
    ∃ ps, parse t = .ok ps ∧ List.Forall₂ (Means str) ps qs

variable {str}

theorem exists_mem_iff_of_forall₂ {α β : Type} {R : α → β → Prop} {P : α → Prop} {Q : β → Prop}
    {as : List α} {bs : List β} (h : List.Forall₂ R as bs) (hiff : ∀ a b, R a b → (P a ↔ Q b)) :
    (∃ a ∈ as, P a) ↔ ∃ b ∈ bs, Q b := by
  induction h with
  | nil => simp
  | cons hab _ ih => simp [hiff _ _ hab, ih]

theorem Means.satisfied_iff {p : Policy ε} {q : Permit} (h : Means str p q) {r : Request ν}
    {s : Store ν} :
    p.satisfied r s = true ↔ r.action = ⟨"Action".toList, q.action⟩ ∧
      q.resource.scope.holds s r.resource = true ∧ q.clauseHolds str r.context = true := by
  simp [Policy.satisfied, h.principal, h.action, h.resource, h.clause, Scope.holds, and_assoc]

/-- Permits allow what one of them is satisfied by. -/
theorem isAuthorized_iff {ps : PolicySet ε} {qs : List Permit}
    (h : List.Forall₂ (Means str) ps qs) {r : Request ν} {s : Store ν} :
    ps.isAuthorized r s = true ↔ ∃ q ∈ qs, r.action = ⟨"Action".toList, q.action⟩ ∧
      q.resource.scope.holds s r.resource = true ∧ q.clauseHolds str r.context = true := by
  have heffect : ∀ p ∈ ps, p.effect = .permit := by
    induction h with
    | nil => simp
    | cons hpq _ ih => exact List.forall_mem_cons.2 ⟨hpq.effect, ih⟩
  have hforbid : ps.someSatisfied .forbid r s = false := by
    refine List.any_eq_false.2 fun p hp => ?_
    simp [heffect p hp]
  have hpermit : ps.someSatisfied .permit r s = true ↔ ∃ p ∈ ps, p.satisfied r s = true := by
    rw [PolicySet.someSatisfied, List.any_eq_true]
    refine exists_congr fun p => and_congr_right fun hp => ?_
    simp [heffect p hp]
  rw [PolicySet.isAuthorized, hforbid, Bool.not_false, Bool.and_true, hpermit]
  exact exists_mem_iff_of_forall₂ h fun _ _ hpq => hpq.satisfied_iff

end Meaning

/-! ## The fragment's own parser -/

section Fragment

variable {ν : Type} [DecidableEq ν] {str : Text → ν}

/-- The condition of a permit. -/
structure Condition (str : Text → ν) where
  tests : List Test

instance : Expressions (Condition str) ν where
  eval e r _ :=
    match evalAny str r.context e.tests with
    | none => .error "the attribute is not there".toList
    | some b => .ok b

def Permit.policy (q : Permit) : Policy (Condition str) where
  id := []
  effect := .permit
  principal := .any
  action := .eq ⟨"Action".toList, q.action⟩
  resource := q.resource.scope
  conditions := if q.tests = [] then [] else [⟨.when, ⟨q.tests⟩⟩]

theorem Permit.policy_means (q : Permit) :
    Means str (q.policy : Policy (Condition str)) q := by
  refine ⟨rfl, rfl, rfl, rfl, fun r s => ?_⟩
  unfold Permit.policy clauseHolds
  by_cases hnone : q.tests = []
  · simp [hnone]
  · simp only [hnone, if_false, List.all_cons, List.all_nil, Bool.and_true, false_or, Clause.holds,
      Expressions.eval]
    cases evalAny str r.context q.tests <;> simp

instance : PolicyParser str (Condition str) where
  parse t :=
    match read t with
    | none => .error "not in the fragment".toList
    | some qs => .ok (qs.map Permit.policy)
  parse_of_read {t qs} h := by
    refine ⟨qs.map Permit.policy, by rw [h], ?_⟩
    rw [List.forall₂_map_left_iff]
    exact List.forall₂_same.2 fun q _ => q.policy_means

end Fragment

end Cedar
end FunctionWasm
