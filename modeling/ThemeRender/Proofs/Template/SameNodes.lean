import ThemeRender.Template.Parse

namespace ThemeRender.Template

/-- The literals are the same and no numbers: two doubles are not equal by any computation. -/
def sameLiteral : Value → Value → Bool
  | .null, .null => true
  | .bool b, .bool c => b == c
  | .string s, .string t => s == t
  | _, _ => false

mutual

def Expr.isSame : Expr → Expr → Bool
  | .literal value, .literal value' => sameLiteral value value'
  | .path segments, .path segments' => segments == segments'
  | .not operand, .not operand' => operand.isSame operand'
  | .binary op left right, .binary op' left' right' =>
      op == op' && (left.isSame left' && right.isSame right')
  | .call function args, .call function' args' => function == function' && Arg.areSame args args'
  | _, _ => false

def Arg.isSame : Arg → Arg → Bool
  | .positional value, .positional value' => value.isSame value'
  | .named name value, .named name' value' => name == name' && value.isSame value'
  | _, _ => false

def Arg.areSame : List Arg → List Arg → Bool
  | [], [] => true
  | arg :: args, arg' :: args' => arg.isSame arg' && Arg.areSame args args'
  | _, _ => false

end

def sameCode (code code' : Spanned Expr) : Bool :=
  code.node.isSame code'.node && code.span == code'.span

mutual

def Node.isSame : Node → Node → Bool
  | .text contents, .text contents' => contents == contents'
  | .output value, .output value' => sameCode value value'
  | .eval code, .eval code' => sameCode code code'
  | .branch condition yes no, .branch condition' yes' no' =>
      sameCode condition condition' && (Node.areSame yes yes' && Node.areSame no no')
  | .each name items body, .each name' items' body' =>
      name == name' && (sameCode items items' && Node.areSame body body')
  | _, _ => false

def Node.areSame : List Node → List Node → Bool
  | [], [] => true
  | node :: nodes, node' :: nodes' => node.isSame node' && Node.areSame nodes nodes'
  | _, _ => false

end

theorem eq_of_sameLiteral {value value' : Value} (same : sameLiteral value value' = true) :
    value = value' := by
  unfold sameLiteral at same
  split at same
  · rfl
  · rw [eq_of_beq same]
  · rw [eq_of_beq same]
  · cases same

mutual

theorem Expr.eq_of_isSame : ∀ {e e' : Expr}, e.isSame e' = true → e = e'
  | .literal _, .literal _, same => congrArg _ (eq_of_sameLiteral same)
  | .path _, .path _, same => congrArg _ (eq_of_beq same)
  | .not _, .not _, same => congrArg _ (Expr.eq_of_isSame same)
  | .binary .., .binary .., same => by
      simp only [Expr.isSame, Bool.and_eq_true, beq_iff_eq] at same
      rw [same.1, Expr.eq_of_isSame same.2.1, Expr.eq_of_isSame same.2.2]
  | .call .., .call .., same => by
      simp only [Expr.isSame, Bool.and_eq_true, beq_iff_eq] at same
      rw [same.1, Arg.eq_of_areSame same.2]

theorem Arg.eq_of_isSame : ∀ {arg arg' : Arg}, arg.isSame arg' = true → arg = arg'
  | .positional _, .positional _, same => congrArg _ (Expr.eq_of_isSame same)
  | .named .., .named .., same => by
      simp only [Arg.isSame, Bool.and_eq_true, beq_iff_eq] at same
      rw [same.1, Expr.eq_of_isSame same.2]

theorem Arg.eq_of_areSame : ∀ {args args' : List Arg}, Arg.areSame args args' = true → args = args'
  | [], [], _ => rfl
  | _ :: _, _ :: _, same => by
      simp only [Arg.areSame, Bool.and_eq_true] at same
      rw [Arg.eq_of_isSame same.1, Arg.eq_of_areSame same.2]

end

theorem eq_of_sameCode {code code' : Spanned Expr} (same : sameCode code code' = true) :
    code = code' := by
  cases code with
  | mk e span =>
    cases code' with
    | mk e' span' =>
      simp only [sameCode, Bool.and_eq_true, beq_iff_eq] at same
      rw [Expr.eq_of_isSame same.1, same.2]

mutual

theorem Node.eq_of_isSame : ∀ {node node' : Node}, node.isSame node' = true → node = node'
  | .text _, .text _, same => congrArg _ (eq_of_beq same)
  | .output _, .output _, same => congrArg _ (eq_of_sameCode same)
  | .eval _, .eval _, same => congrArg _ (eq_of_sameCode same)
  | .branch .., .branch .., same => by
      simp only [Node.isSame, Bool.and_eq_true] at same
      rw [eq_of_sameCode same.1, Node.eq_of_areSame same.2.1, Node.eq_of_areSame same.2.2]
  | .each .., .each .., same => by
      simp only [Node.isSame, Bool.and_eq_true, beq_iff_eq] at same
      rw [same.1, eq_of_sameCode same.2.1, Node.eq_of_areSame same.2.2]

theorem Node.eq_of_areSame :
    ∀ {nodes nodes' : List Node}, Node.areSame nodes nodes' = true → nodes = nodes'
  | [], [], _ => rfl
  | _ :: _, _ :: _, same => by
      simp only [Node.areSame, Bool.and_eq_true] at same
      rw [Node.eq_of_isSame same.1, Node.eq_of_areSame same.2]

end

/-- What a template without numbers is read as can be computed. -/
theorem parse_of_areSame {source : String} {nodes : List Node}
    (same : (parse source).toOption.any (Node.areSame · nodes) = true) :
    parse source = .ok nodes := by
  cases parsed : parse source with
  | error errors =>
      rw [parsed] at same
      cases same
  | ok found =>
      rw [parsed] at same
      rw [Node.eq_of_areSame same]

end ThemeRender.Template
