import DuckdbLoki.Base
import DuckdbLoki.Regex
import Mathlib.Data.Rat.Defs

namespace DuckdbLoki

inductive TemporalType
  | timestampNs
  | timestamp
  | timestampTz
  | date
deriving DecidableEq

inductive SqlType
  | boolean
  | varchar
  | number (type : ℕ)
  | temporal (type : TemporalType)
  | other (type : ℕ)
deriving DecidableEq

/-- A value of the database; a temporal one counts units of its type since the
epoch. -/
inductive Value
  | null
  | boolean (b : Bool)
  | varchar (s : Str)
  | number (type : ℕ) (q : ℚ)
  | temporal (type : TemporalType) (count : ℤ)
  | map (pairs : List (Str × Str))
  | other (type : ℕ) (payload : Str)
deriving DecidableEq

inductive CompareOp
  | eq
  | ne
  | lt
  | gt
  | le
  | ge
  | distinct
  | notDistinct
deriving DecidableEq

inductive OperatorType
  | not
  | isIn
  | other (type : ℕ)
deriving DecidableEq

/-- A bound expression. Comparisons and casts are function expressions of
their own kind. -/
inductive Expression
  | columnRef (columnIndex : ℕ)
  | constant (value : Value)
  | cast (target : SqlType) (child : Expression)
  | comparison (op : CompareOp) (left right : Expression)
  | function (name : Str) (children : List Expression)
  | operator (type : OperatorType) (children : List Expression)
  | other (class_ : ℕ) (children : List Expression)

/-- The parts of the database that are not under study; a call without a
result raises an error. -/
structure Database where
  regex : Regex.Engine
  cast : SqlType → Value → Option Value
  toText : Value → Str
  less : Value → Value → Bool
  function : Str → List Value → Option Value
  consistent : Str → Bool
  special : ℕ → List Value → Option Value
  specialConsistent : ℕ → Bool

section Semantics

def CompareOp.flip : CompareOp → CompareOp
  | .lt => .gt
  | .gt => .lt
  | .le => .ge
  | .ge => .le
  | op => op

def like : Str → Str → Bool
  | [], s => s.isEmpty
  | c :: p, s =>
    if c = '%' then s.tails.any (like p)
    else match s with
      | [] => false
      | d :: s => (c = '_' || c = d) && like p s

variable (db : Database)

def lineTest (name : Str) (line pattern : Str) : Option Bool :=
  if name = "contains".toList then some (pattern <:+: line)
  else if name = "prefix".toList then some (pattern <+: line)
  else if name = "suffix".toList then some (pattern <:+ line)
  else if name = "regexp_matches".toList then some (db.regex.partialMatch pattern line)
  else if name = "~~".toList then some (like pattern line)
  else if name = "!~~".toList then some (!like pattern line)
  else none

def callFunction (name : Str) (args : List Value) : Option Value :=
  match args with
  | [.varchar line, .varchar pattern] =>
    match lineTest db name line pattern with
    | some b => some (.boolean b)
    | none => db.function name args
  | _ => db.function name args

def compareValues (op : CompareOp) (a b : Value) : Value :=
  match op with
  | .distinct => .boolean (a ≠ b)
  | .notDistinct => .boolean (a = b)
  | op =>
    if a = .null ∨ b = .null then .null
    else match op with
      | .eq => .boolean (a = b)
      | .ne => .boolean (a ≠ b)
      | .lt => .boolean (db.less a b)
      | .gt => .boolean (db.less b a)
      | .le => .boolean (!db.less b a)
      | _ => .boolean (!db.less a b)

def inList (a : Value) (members : List Value) : Value :=
  if a = .null then .null
  else if a ∈ members then .boolean true
  else if .null ∈ members then .null
  else .boolean false

def callOperator (type : OperatorType) (args : List Value) : Option Value :=
  match type, args with
  | .not, [.boolean b] => some (.boolean (!b))
  | .not, [.null] => some .null
  | .not, _ => none
  | .isIn, a :: members => some (inList a members)
  | .isIn, [] => none
  | .other type, args => db.special type args

mutual

def Expression.eval (row : ℕ → Value) : Expression → Option Value
  | .columnRef i => some (row i)
  | .constant v => some v
  | .cast t e => (e.eval row).bind (fun v ↦ if v = .null then some .null else db.cast t v)
  | .comparison op l r =>
    (l.eval row).bind (fun a ↦ (r.eval row).map (fun b ↦ compareValues db op a b))
  | .function name args => (evalAll row args).bind (callFunction db name)
  | .operator type args => (evalAll row args).bind (callOperator db type)
  | .other c args => (evalAll row args).bind (db.special c)

def evalAll (row : ℕ → Value) : List Expression → Option (List Value)
  | [] => some []
  | e :: es => (e.eval row).bind (fun v ↦ (evalAll row es).map (v :: ·))

end

def Expression.Holds (row : ℕ → Value) (e : Expression) : Prop :=
  e.eval db row = some (.boolean true)

instance (row : ℕ → Value) (e : Expression) : Decidable (e.Holds db row) :=
  inferInstanceAs (Decidable (_ = _))

mutual

def Expression.isFoldable : Expression → Bool
  | .columnRef _ => false
  | .constant _ => true
  | .cast _ e => e.isFoldable
  | .comparison _ l r => l.isFoldable && r.isFoldable
  | .function name args => db.consistent name && allFoldable args
  | .operator (.other type) args => db.specialConsistent type && allFoldable args
  | .operator _ args => allFoldable args
  | .other c args => db.specialConsistent c && allFoldable args

def allFoldable : List Expression → Bool
  | [] => true
  | e :: es => e.isFoldable && allFoldable es

end

/-- The value of an expression without column references, unless it is null or
cannot be evaluated. -/
def evalConstant (e : Expression) : Option Value :=
  if e.isFoldable db then
    match e.eval db (fun _ ↦ .null) with
    | some .null => none
    | v => v
  else none

end Semantics

section Fold

variable {db : Database}

mutual

theorem Expression.eval_foldable (row row' : ℕ → Value) :
    ∀ e : Expression, e.isFoldable db = true → e.eval db row = e.eval db row'
  | .columnRef _, h => nomatch h
  | .constant _, _ => rfl
  | .cast _ e, h => by
    rw [Expression.eval, Expression.eval, Expression.eval_foldable row row' e h]
  | .comparison _ l r, h => by
    obtain ⟨hl, hr⟩ := Bool.and_eq_true_iff.mp h
    rw [Expression.eval, Expression.eval, Expression.eval_foldable row row' l hl,
      Expression.eval_foldable row row' r hr]
  | .function _ args, h => by
    rw [Expression.eval, Expression.eval,
      evalAll_foldable row row' args (Bool.and_eq_true_iff.mp h).2]
  | .operator .not args, h => by
    rw [Expression.eval, Expression.eval, evalAll_foldable row row' args h]
  | .operator .isIn args, h => by
    rw [Expression.eval, Expression.eval, evalAll_foldable row row' args h]
  | .operator (.other _) args, h => by
    rw [Expression.eval, Expression.eval,
      evalAll_foldable row row' args (Bool.and_eq_true_iff.mp h).2]
  | .other _ args, h => by
    rw [Expression.eval, Expression.eval,
      evalAll_foldable row row' args (Bool.and_eq_true_iff.mp h).2]

theorem evalAll_foldable (row row' : ℕ → Value) :
    ∀ es : List Expression, allFoldable db es = true → evalAll db row es = evalAll db row' es
  | [], _ => rfl
  | e :: es, h => by
    obtain ⟨he, hes⟩ := Bool.and_eq_true_iff.mp h
    rw [evalAll, evalAll, Expression.eval_foldable row row' e he,
      evalAll_foldable row row' es hes]

end

theorem evalConstant_eq_some {e : Expression} {v : Value} (h : evalConstant db e = some v)
    (row : ℕ → Value) : e.eval db row = some v ∧ v ≠ .null := by
  unfold evalConstant at h
  split_ifs at h with hf
  rw [Expression.eval_foldable row (fun _ ↦ .null) e hf]
  split at h
  · cases h
  · rename_i hne
    exact ⟨h, fun hv ↦ hne (hv ▸ h)⟩

theorem evalConstant_constant {v : Value} (h : v ≠ .null) :
    evalConstant db (.constant v) = some v := by
  unfold evalConstant
  rw [if_pos (show (Expression.constant v).isFoldable db = true from rfl), Expression.eval]
  split
  · rename_i hv
    exact absurd (Option.some.inj hv) h
  · rfl

end Fold

end DuckdbLoki
