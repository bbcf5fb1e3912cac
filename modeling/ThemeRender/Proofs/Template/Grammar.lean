import ThemeRender.Template.ExprReader
/-!
The grammar of expressions over tokens, with one rule for all operators and their levels. Its rules
have no order and take no longest match.
-/

namespace ThemeRender.Template

/-- How an expression is put together, from loosest to tightest. -/
inductive Level where
  | disjunction
  | conjunction
  | comparison
  | negation
  | operand
deriving DecidableEq

def Level.rank : Level → Nat
  | .disjunction => 0
  | .conjunction => 1
  | .comparison => 2
  | .negation => 3
  | .operand => 4

def Level.next? : Level → Option Level
  | .disjunction => some .conjunction
  | .conjunction => some .comparison
  | .comparison => some .negation
  | .negation => some .operand
  | .operand => none

namespace BinaryOp

def level : BinaryOp → Level
  | .or => .disjunction
  | .and => .conjunction
  | .equal | .unequal => .comparison

/-- The level of the operand on the left. A comparison does not chain; `and` and `or` group from
the left. -/
def leftLevel : BinaryOp → Level
  | .or => .disjunction
  | .and => .conjunction
  | .equal | .unequal => .negation

def rightLevel : BinaryOp → Level
  | .or => .conjunction
  | .and => .comparison
  | .equal | .unequal => .negation

def token : BinaryOp → Token
  | .or => .keyword .orKw
  | .and => .keyword .andKw
  | .equal => .mark .equal
  | .unequal => .mark .unequal

end BinaryOp

inductive Phrase where
  | expr (level : Level) (e : Expr)
  | arg (arg : Arg)
  /-- Arguments with a comma before each. -/
  | moreArgs (args : List Arg)

inductive Derives : Phrase → List Token → Prop
  | literal {token : Token} {value : Value} (isLiteral : Expr.literalOf? token = some value) :
      Derives (.expr .operand (.literal value)) [token]
  | path (name : String) (fields : List String) :
      Derives (.expr .operand (.path (name :: fields)))
        (.ident name :: fields.flatMap fun field => [.mark .dot, .ident field])
  | emptyCall (function : String) :
      Derives (.expr .operand (.call function []))
        [.ident function, .mark .leftParen, .mark .rightParen]
  /-- A comma may follow the last argument. -/
  | call (function : String) {arg : Arg} {args : List Arg} {row more comma : List Token}
      (first : Derives (.arg arg) row) (others : Derives (.moreArgs args) more)
      (trailing : comma = [] ∨ comma = [.mark .comma]) :
      Derives (.expr .operand (.call function (arg :: args)))
        (.ident function :: .mark .leftParen :: (row ++ (more ++ (comma ++ [.mark .rightParen]))))
  | parens {e : Expr} {row : List Token} (inner : Derives (.expr .disjunction e) row) :
      Derives (.expr .operand e) (.mark .leftParen :: (row ++ [.mark .rightParen]))
  | not {e : Expr} {row : List Token} (operand : Derives (.expr .negation e) row) :
      Derives (.expr .negation (.not e)) (.keyword .notKw :: row)
  | binary {op : BinaryOp} {level : Level} {left right : Expr} {leftRow rightRow : List Token}
      (atLevel : level = op.level) (first : Derives (.expr op.leftLevel left) leftRow)
      (second : Derives (.expr op.rightLevel right) rightRow) :
      Derives (.expr level (.binary op left right)) (leftRow ++ op.token :: rightRow)
  | tighter {level tight : Level} {e : Expr} {row : List Token} (isNext : level.next? = some tight)
      (derives : Derives (.expr tight e) row) : Derives (.expr level e) row
  | positional {e : Expr} {row : List Token} (value : Derives (.expr .disjunction e) row) :
      Derives (.arg (.positional e)) row
  | named (name : String) {e : Expr} {row : List Token}
      (value : Derives (.expr .disjunction e) row) :
      Derives (.arg (.named name e)) (.ident name :: .mark .colon :: row)
  | noMore : Derives (.moreArgs []) []
  | more {arg : Arg} {args : List Arg} {row rest : List Token} (next : Derives (.arg arg) row)
      (others : Derives (.moreArgs args) rest) :
      Derives (.moreArgs (arg :: args)) (.mark .comma :: (row ++ rest))

variable {row more : List Token} {e : Expr} {level : Level}

theorem Level.rank_injective : Function.Injective Level.rank := by
  intro a b same
  cases a <;> cases b <;> simp_all [Level.rank]

theorem Level.next_of_looser {tight : Level} (looser : level.rank < tight.rank) :
    ∃ next, level.next? = some next ∧ next.rank = level.rank + 1 := by
  cases level with
  | operand => cases tight <;> exact absurd looser (by decide)
  | _ => exact ⟨_, rfl, rfl⟩

theorem Derives.loosen {tight : Level} (derives : Derives (.expr tight e) row)
    (looser : level.rank ≤ tight.rank) : Derives (.expr level e) row := by
  obtain ⟨steps, same⟩ := Nat.exists_eq_add_of_le looser
  induction steps generalizing level with
  | zero =>
      rw [← Level.rank_injective same]
      exact derives
  | succ steps ih =>
      have below : level.rank < tight.rank := by omega
      obtain ⟨next, isNext, rank⟩ := Level.next_of_looser below
      exact .tighter isNext (ih (by omega) (by omega))

/-! What follows an expression -/

def Token.lengthens (level : Level) : Token → Bool
  | .mark .dot | .mark .leftParen => true
  | .mark .equal | .mark .unequal => level.rank ≤ Level.comparison.rank
  | .keyword .andKw => level.rank ≤ Level.conjunction.rank
  | .keyword .orKw => level.rank ≤ Level.disjunction.rank
  | _ => false

def Stops (level : Level) (row : List Token) : Prop :=
  ∀ head, row.head? = some head → head.lengthens level = false

theorem stops_nil (level : Level) : Stops level [] := by
  intro head first
  cases first

theorem stops_cons {head : Token} (ends : head.lengthens level = false) (row : List Token) :
    Stops level (head :: row) := by
  rintro _ ⟨⟩
  exact ends

theorem Stops.tighten {tight : Level} (stops : Stops level row) (tighter : level.rank ≤ tight.rank) :
    Stops tight row := by
  intro head first
  have ends := stops head first
  unfold Token.lengthens at ends ⊢
  split at ends
  all_goals simp_all
  all_goals omega

theorem Stops.not_head (stops : Stops level row) {head : Token}
    (lengthens : head.lengthens level = true) : row.head? ≠ some head := by
  intro first
  rw [stops head first] at lengthens
  cases lengthens

def EndsArg (row : List Token) : Prop :=
  row.head? = some (.mark .comma) ∨ row.head? = some (.mark .rightParen)

theorem EndsArg.stops (ends : EndsArg row) : Stops level row := by
  intro head first
  rcases ends with comma | paren
  · rw [comma] at first
    cases first
    rfl
  · rw [paren] at first
    cases first
    rfl

theorem Derives.endsArg {args : List Arg} (derives : Derives (.moreArgs args) row)
    (ends : EndsArg more) : EndsArg (row ++ more) := by
  cases derives with
  | noMore => exact ends
  | more => exact .inl rfl

/-! How derived rows start -/

theorem Derives.operand_head (derives : Derives (.expr .operand e) row) :
    ∃ head rest, row = head :: rest ∧ ∀ word, head = .keyword word → word ≠ .notKw := by
  cases derives with
  | @literal token value isLiteral =>
      refine ⟨token, [], rfl, ?_⟩
      rintro word rfl rfl
      cases isLiteral
  | path => exact ⟨_, _, rfl, fun _ same => by cases same⟩
  | emptyCall => exact ⟨_, _, rfl, fun _ same => by cases same⟩
  | call => exact ⟨_, _, rfl, fun _ same => by cases same⟩
  | parens => exact ⟨_, _, rfl, fun _ same => by cases same⟩
  | @binary op _ _ _ _ _ atLevel => cases op <;> cases atLevel
  | tighter isNext => cases isNext

def Phrase.isExpr : Phrase → Bool
  | .expr _ _ => true
  | _ => false

theorem Derives.ne_nil {phrase : Phrase} (derives : Derives phrase row)
    (isExpr : phrase.isExpr = true) : row ≠ [] := by
  induction derives with
  | binary => simp
  | tighter _ _ ih => exact ih rfl
  | positional | named | noMore | more => cases isExpr
  | _ => simp

/-- An expression that starts with a name does not start like a named argument. -/
theorem Derives.no_colon {phrase : Phrase} (derives : Derives phrase row)
    (isExpr : phrase.isExpr = true) {name : String} {tail : List Token}
    (named : row = .ident name :: tail) : tail.head? ≠ some (.mark .colon) := by
  induction derives generalizing name tail with
  | literal => cases named; simp
  | path _ fields => cases named; cases fields <;> simp
  | emptyCall => cases named; simp
  | call => cases named; simp
  | parens => cases named
  | not => cases named
  | @binary op _ _ _ leftRow _ _ first _ ihFirst _ =>
      cases leftRow with
      | nil => exact absurd rfl (first.ne_nil rfl)
      | cons head rest =>
          obtain ⟨rfl, rfl⟩ := List.cons.inj named
          cases rest with
          | nil => cases op <;> simp [BinaryOp.token]
          | cons second rest =>
              have noColon := ihFirst rfl rfl
              exact noColon
  | tighter _ _ ih => exact ih rfl named
  | positional | named | noMore | more => cases isExpr

end ThemeRender.Template
