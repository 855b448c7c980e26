import Vigor.Validator.Simplify

/-!
# Translation of symbolic expressions

`get_sexp_value_raw` turns a printed KLEE expression into a typed term.  Types
are passed down and guessed, and extensions and extractions are dropped or
become casts.  Expressions are given by the forms of that function for integers,
without shared subexpressions.
-/

namespace Vigor
namespace Validator

/-! ## Values of terms -/

/-- Widths of the integer types. -/
inductive Width
  | w8 | w16 | w32 | w64
  deriving DecidableEq

/-- The number of bits. -/
def Width.bits : Width → ℕ
  | .w8 => 8
  | .w16 => 16
  | .w32 => 32
  | .w64 => 64

/-- Signed and unsigned integers of a width. -/
def intType : Bool → Width → Ttype
  | true, .w8 => .sint8
  | true, .w16 => .sint16
  | true, .w32 => .sint32
  | true, .w64 => .sint64
  | false, .w8 => .uint8
  | false, .w16 => .uint16
  | false, .w32 => .uint32
  | false, .w64 => .uint64

/-- Whether an integer type is signed, and its width. -/
def Ttype.int? (t : Ttype) : Option (Bool × Width) :=
  ([true, false].product [.w8, .w16, .w32, .w64]).find? fun kind => intType kind.1 kind.2 = t

/-- What a number becomes in a type. -/
def Ttype.wrap
    (t : Ttype)
    (x : ℤ) : Option ℤ :=
  t.int?.map fun kind => if kind.1 then x.bmod (2 ^ kind.2.bits) else x % 2 ^ kind.2.bits

/-- The operations on numbers, before the result is wrapped.  There is no result
if a divisor is zero, or if the operation is not arithmetic. -/
def Bop.calculate : Bop → ℤ → ℤ → Option ℤ
  | .add, a, b => some (a + b)
  | .sub, a, b => some (a - b)
  | .mul, a, b => some (a * b)
  | .div, a, b => if b = 0 then none else some (a.tdiv b)
  | .modulo, a, b => if b = 0 then none else some (a.tmod b)
  | .bitAnd, a, b => some (a.toNat &&& b.toNat : ℕ)
  | _, _, _ => none

mutual

/-- The value of a term, with the result of every node wrapped to the type that
the node is annotated with.  The printed text has no such types, and there C
would promote operands of 8 and 16 bits. -/
def evalTerm (env : String → ℤ) : Term → Ttype → Option ℤ
  | .id name, t => t.wrap (env name)
  | .int i, t => t.wrap i
  | .bop op lhs rhs, t => do t.wrap (← op.calculate (← eval env lhs) (← eval env rhs))
  | .cast ctype x, t => do t.wrap (← ctype.wrap (← eval env x))
  | _, _ => none
termination_by structural x => x

/-- The value of a term in its type. -/
def eval (env : String → ℤ) : Tterm → Option ℤ
  | ⟨v, t⟩ => evalTerm env v t
termination_by structural x => x

end

/-! ## Expressions -/

/-- The arithmetic operations of expressions. -/
inductive Arith
  | add | sub | mul | uDiv | uRem

/-- The operation of terms that it becomes. -/
def Arith.bop : Arith → Bop
  | .add => .add
  | .sub => .sub
  | .mul => .mul
  | .uDiv => .div
  | .uRem => .modulo

/-- Expressions: constants are printed with their width or `bare`, and
extractions are at offset 0. -/
inductive Expr
  | const (w : Width) (n : ℕ)
  | bare (n : ℕ)
  | read (w : Width) (name : String)
  | arith (op : Arith) (w : Width) (lhs rhs : Expr)
  | zExt (w : Width) (arg : Expr)
  | sExt (w : Width) (arg : Expr)
  | extract (w : Width) (src : Expr)

namespace Expr

/-- The width that is printed. -/
def width? : Expr → Option Width
  | .bare _ => none
  | .const w _ | .read w _ | .arith _ w _ _ | .zExt w _ | .sExt w _ | .extract w _ => some w

/-- The bit vector.  There is none if a variable does not have a number of its
width, or a divisor is zero. -/
def value (env : String → ℤ) : Expr → Option ℤ
  | .const _ n | .bare n => some n
  | .read w name => if 0 ≤ env name ∧ env name < 2 ^ w.bits then some (env name) else none
  | .arith op w lhs rhs => do
      let left ← lhs.value env
      let right ← rhs.value env
      return (← op.bop.calculate (left % 2 ^ w.bits) (right % 2 ^ w.bits)) % 2 ^ w.bits
  | .zExt _ arg => arg.value env
  | .sExt w arg => do return (← arg.value env).bmod (2 ^ (← arg.width?).bits) % 2 ^ w.bits
  | .extract w src => do return (← src.value env) % 2 ^ w.bits

/-- The depth of the calls that an expression needs. -/
def depth : Expr → ℕ
  | .const _ _ | .bare _ | .read _ _ => 0
  | .arith _ _ lhs rhs => max lhs.depth rhs.depth + 1
  | .zExt _ arg | .sExt _ arg | .extract _ arg => arg.depth + 1

/-- The width and the name of a variable under a `ZExt`. -/
def extendedRead? : Expr → Option (Width × String)
  | .zExt _ (.read w name) => some (w, name)
  | _ => none

end Expr

/-! ## The translation -/

/-- `canonicalize_sexp`. -/
def canonicalizeSexp : Expr → Expr
  | .extract w src =>
      match src.extendedRead? with
      | some (w', name) => if w' = w then .read w name else .extract w (canonicalizeSexp src)
      | none => .extract w (canonicalizeSexp src)
  | .arith op w lhs rhs => .arith op w (canonicalizeSexp lhs) (canonicalizeSexp rhs)
  | .zExt w arg => .zExt w (canonicalizeSexp arg)
  | .sExt w arg => .sExt w (canonicalizeSexp arg)
  | exp => exp

/-- The 64-bit constants that are read as negative numbers. -/
def negativeConstants : List ℕ :=
  [10, 10000, 3600000000000, 300, 60, 38, 20, 10000000000, 54].map (2 ^ 64 - ·)

/-- `parse_int`; integers have 63 bits. -/
def parseInt (n : ℕ) : Option ℤ :=
  if n ∈ negativeConstants then some (n - 2 ^ 64) else if n < 2 ^ 62 then some n else none

/-- `get_sint_in_bounds`. -/
def getSintInBounds (n : ℕ) : Option ℤ :=
  if n ∈ negativeConstants then some (n - 2 ^ 64)
  else if n < 2 ^ 62 then
    some (if n ≠ 10000000000 ∧ n ≠ 3750000000 ∧ n > 2147483647 then n - 2 ^ 32 else n)
  else none

/-- `guess_type`, which fails for a bare constant. -/
def guessType (exp : Expr) : Ttype → Option Ttype
  | .uunknown => exp.width?.map (intType false)
  | .sunknown => exp.width?.map (intType true)
  | .unknown =>
      match exp with
      | .const w n =>
          some (if w = .w32 ∧ n = 0 then .boolean else intType (parseInt n).isSome w)
      | exp => exp.width?.map (intType false)
  | t => some t

/-- `make_cast_if_needed`. -/
def makeCastIfNeeded
    (tt : Tterm)
    (srct dstt : Ttype) : Tterm :=
  if srct = dstt then tt
  else if srct = .uint32 ∧ dstt = .uint16 then
    ⟨.cast dstt ⟨.bop .bitAnd tt ⟨.int 0xFFFF, .uint32⟩, .uint32⟩, dstt⟩
  else ⟨.cast dstt tt, dstt⟩

/-- The case of an atom at a type that is not a pointer. -/
def atomValue
    (n : ℕ)
    (t : Ttype) : Option Tterm :=
  if (t.int?.map Prod.fst).getD false then (getSintInBounds n).map fun i => ⟨.int i, t⟩
  else if n = 18446744073709551611 then some ⟨.int (-5), .sint64⟩
  else some ⟨((parseInt n).map Term.int).getD (.id (toString n)), t⟩

/-- The cases of `get_sexp_value_raw`.  The guess for the first operand is never
unknown, so it is that of `guess_type_l`. -/
def translateNode
    (raw : Expr → Ttype → Option Tterm)
    (t : Ttype) : Expr → Option Tterm
  | .const _ n | .bare n => atomValue n t
  | .read _ name => some ⟨.id name, t⟩
  | .extract .w8 src => raw src t
  | .extract w src => do
      let kind ← t.int?
      if kind.2.bits < w.bits then none
      else
        let srct ← guessType src (if kind.1 then .sunknown else .uunknown)
        let value ← raw src srct
        if kind.2 = w then return makeCastIfNeeded value srct t
        else return ⟨.cast t ⟨.cast (intType kind.1 w) value, intType kind.1 w⟩, t⟩
  | .sExt .w64 arg => do return ⟨.cast .uint64 (← raw arg .uint32), .uint64⟩
  | .sExt _ _ => none
  | .zExt _ arg => raw arg t
  | .arith .add _ lhs rhs => do
      let resType ← guessType lhs .unknown
      return makeCastIfNeeded ⟨.bop .add (← raw lhs resType) (← raw rhs resType), resType⟩ resType t
  | .arith op w lhs rhs => do
      let mt ← if op.bop = .sub ∨ op.bop = .mul then guessType lhs .unknown
        else some (intType false w)
      return ⟨.bop op.bop (← raw lhs mt) (← raw rhs mt), mt⟩

/-- `get_sexp_value_raw`, with an allowance for the depth of the calls.  There
is no result if the function raises an exception or makes up a name for the
expression. -/
def getSexpValueRaw : ℕ → Expr → Ttype → Option Tterm
  | 0, _, _ => none
  | fuel + 1, exp, t => do
      translateNode (getSexpValueRaw fuel) (← guessType (canonicalizeSexp exp) t)
        (canonicalizeSexp exp)

/-- `get_sexp_value`. -/
def getSexpValue
    (fuel : ℕ)
    (exp : Expr)
    (t : Ttype) : Attempt Error Tterm :=
  (getSexpValueRaw fuel exp t).elim .giveUp (simplifyTterm 2)

/-! ## Preservation of values -/

/-- The expressions that are translated faithfully at an unsigned type.  Every
`SExt` is left out, which becomes a zero extension.  So is a constant in the
first place of an `Add`, a `Sub` or a `Mul`, where KLEE prints it: the type that
is guessed from it is signed. -/
inductive Translatable : Expr → Width → Prop
  | const {w n i v} : n < 2 ^ w.bits → parseInt n = some i →
    Translatable (.const w n) v
  | bare {n i v} : parseInt n = some i → Translatable (.bare n) v
  | read {w name v} : Translatable (.read w name) v
  | zExt {w u arg v} : arg.width? = some u → u.bits ≤ w.bits →
      Translatable arg v →
      Translatable (.zExt w arg) v
  | byte {src} : Translatable src .w8 → Translatable (.extract .w8 src) .w8
  | extract {w u src v} : w ≠ .w8 → w.bits ≤ v.bits → src.width? = some u →
      Translatable src u → Translatable (.extract w src) v
  | add {w lhs rhs v} : guessType lhs .unknown = some (intType false w) →
      Translatable lhs w → Translatable rhs w →
        Translatable (.arith .add w lhs rhs) v
  | arith {op w lhs rhs v} : op ≠ .add →
      (op.bop = .sub ∨ op.bop = .mul →
        guessType lhs .unknown = some (intType false w)) →
      w.bits ≤ v.bits → Translatable lhs w → Translatable rhs w →
      Translatable (.arith op w lhs rhs) v

/-- Terms with their values, when they are made at an unsigned type.  Operands
have the type of their node, and other terms can have another type than they are
made at. -/
inductive Denotes (env : String → ℤ) : Width → Tterm → ℤ → Prop
  | id {name v} :
    Denotes env v ⟨.id name, intType false v⟩ (env name % 2 ^ v.bits)
  | int {i v} : -2 ^ 62 < i → i < 2 ^ 62 →
      Denotes env v ⟨.int i, intType false v⟩ (i % 2 ^ v.bits)
  | bop {op lhs rhs a b c v u} : Denotes env v lhs a → Denotes env v rhs b →
      op.calculate a b = some c →
      Denotes env u ⟨.bop op lhs rhs, intType false v⟩ (c % 2 ^ v.bits)
  | cast {tt a v w u} : Denotes env w tt a →
      Denotes env u ⟨.cast (intType false v) tt, intType false v⟩
        (a % 2 ^ v.bits)

variable {env : String → ℤ} {exp src : Expr} {u v w : Width} {tt lhs rhs : Tterm} {a b n : ℤ}

theorem canonicalize_width (exp : Expr) :
    (canonicalizeSexp exp).width? = exp.width? := by
  fun_cases canonicalizeSexp exp <;> rfl

theorem canonicalize_guessType (exp : Expr) :
    guessType (canonicalizeSexp exp) .unknown = guessType exp .unknown := by
  fun_cases canonicalizeSexp exp <;> rfl

theorem canonicalize_depth (exp : Expr) :
    (canonicalizeSexp exp).depth ≤ exp.depth := by
  fun_induction canonicalizeSexp exp <;> grind [Expr.depth]

theorem eq_zExt_of_extendedRead
    {name : String}
    (isRead : exp.extendedRead? = some (w, name)) :
    ∃ u, exp = .zExt u (.read w name) := by
  unfold Expr.extendedRead? at isRead
  split at isRead <;> simp_all

theorem canonicalize_value
    (env : String → ℤ)
    (exp : Expr) :
    (canonicalizeSexp exp).value env = exp.value env := by
  fun_induction canonicalizeSexp exp with
  | case1 src w name isRead =>
      obtain ⟨u, rfl⟩ := eq_zExt_of_extendedRead isRead
      simp only [Expr.value]
      split
      · next inRange => simp [Int.emod_eq_of_lt inRange.1 inRange.2]
      · rfl
  | _ => simp_all [Expr.value, canonicalize_width]

theorem canonicalize_translatable (ok : Translatable exp v) :
    Translatable (canonicalizeSexp exp) v := by
  induction ok with
  | const bounded parsed => exact .const bounded parsed
  | bare parsed => exact .bare parsed
  | read => exact .read
  | zExt width le _ ih => exact .zExt ((canonicalize_width _).trans width) le ih
  | byte _ ih =>
      unfold canonicalizeSexp
      split
      · split
        exacts [.read, .byte ih]
      · exact .byte ih
  | extract wide le width _ ih =>
      have kept := Translatable.extract wide le ((canonicalize_width _).trans width) ih
      unfold canonicalizeSexp
      split
      · split
        exacts [.read, kept]
      · exact kept
  | add guessed _ _ ihl ihr => exact .add ((canonicalize_guessType _).trans guessed) ihl ihr
  | arith other guessed le _ _ ihl ihr =>
      exact .arith other (fun h => (canonicalize_guessType _).trans (guessed h)) le ihl ihr

theorem emod_emod_of_le
    (le : w.bits ≤ v.bits)
    (a : ℤ) :
    a % 2 ^ w.bits % 2 ^ v.bits = a % 2 ^ w.bits := by
  cases w <;> cases v <;> simp only [Width.bits] at le ⊢ <;> omega

theorem value_extract_iff :
    (Expr.extract w src).value env = some n ↔ ∃ m,
      src.value env = some m ∧ m % 2 ^ w.bits = n := by
  simp [Expr.value, Option.bind_eq_some_iff]

theorem value_arith_iff
    {op : Arith}
    {lhs rhs : Expr} :
    (Expr.arith op w lhs rhs).value env = some n ↔
      ∃ l, lhs.value env = some l ∧ ∃ r, rhs.value env = some r ∧
        ∃ result,
          op.bop.calculate (l % 2 ^ w.bits) (r % 2 ^ w.bits) = some result ∧
          result % 2 ^ w.bits = n := by
  simp [Expr.value, Option.bind_eq_some_iff]

theorem emod_value
    (ok : Translatable exp v)
    (width : exp.width? = some w)
    (isValue : exp.value env = some n) :
    n % 2 ^ w.bits = n := by
  induction ok generalizing w n with
  | const bounded =>
      cases width
      cases isValue
      exact Int.emod_eq_of_lt (by omega) (by exact_mod_cast bounded)
  | bare => cases width
  | read =>
      cases width
      simp only [Expr.value, Option.ite_none_right_eq_some, Option.some.injEq] at isValue
      obtain ⟨inRange, rfl⟩ := isValue
      exact Int.emod_eq_of_lt inRange.1 inRange.2
  | zExt argWidth le _ ih =>
      cases width
      rw [← ih argWidth isValue, emod_emod_of_le le]
  | _ =>
      cases width
      grind [value_extract_iff, value_arith_iff, Int.emod_emod]

@[simp]
theorem int_intType (signed : Bool) :
    (intType signed w).int? = some (signed, w) := by
  cases signed <;> cases w <;> rfl

theorem wrap_intType (x : ℤ) :
    (intType false v).wrap x = some (x % 2 ^ v.bits) := by
  simp [Ttype.wrap]

theorem guessType_intType (exp : Expr) :
    guessType exp (intType false v) = some (intType false v) := by
  cases v <;> rfl

theorem Denotes.eval_eq (denotes : Denotes env u tt n) :
    eval env tt = some n := by
  induction denotes with
  | id => exact wrap_intType _
  | int => exact wrap_intType _
  | bop _ _ result left right => simp [eval, evalTerm, left, right, result, wrap_intType]
  | cast _ value => simp [eval, evalTerm, value, wrap_intType]

theorem intType_injective (same : intType false v = intType false w) :
    v = w := by
  simpa using congrArg Ttype.int? same

theorem Denotes.of_cast
    {t : Ttype}
    (denotes : Denotes env u ⟨.cast (intType false v) tt, t⟩ a) :
    t = intType false v ∧
      ∀ w, Denotes env w ⟨.cast (intType false v) tt, intType false v⟩
        (a % 2 ^ v.bits) := by
  generalize isCast : (⟨.cast (intType false v) tt, t⟩ : Tterm) = whole at denotes
  cases denotes with
  | cast inside =>
      simp only [Tterm.mk.injEq, Term.cast.injEq] at isCast
      obtain ⟨⟨same, rfl⟩, rfl⟩ := isCast
      rw [intType_injective same, Int.emod_emod]
      exact ⟨rfl, fun _ => .cast inside⟩
  | _ => cases isCast

theorem Denotes.negate
    {x : ℤ}
    {t : Ttype}
    (literal : Denotes env v ⟨.int x, t⟩ a)
    (denotes : Denotes env v rhs b)
    (negative : x < 0) :
    Denotes env u ⟨.bop .sub rhs ⟨.int (negateInt x), t⟩, intType false v⟩
      ((a + b) % 2 ^ v.bits) := by
  cases literal with
  | int low high =>
      have negated : negateInt x = -x := by
        rw [negateInt, Int.bmod]
        split <;> omega
      have same : (b - -x % 2 ^ v.bits) % 2 ^ v.bits = (x % 2 ^ v.bits + b) % 2 ^ v.bits := by
        cases v <;> simp only [Width.bits] <;> omega
      rw [negated, ← same]
      exact .bop denotes (.int (by omega) (by omega)) rfl

theorem Denotes.simplify (denotes : Denotes env u tt n) :
    ∃ result, (simplifyTterm 2 tt).Gives result ∧ Denotes env u result n := by
  let node := simplifyNode (simplifyTterm 1)
  change ∃ result, Attempt.Gives (callRecursivelyOnTterm (keepType node) tt) result ∧ _
  induction denotes with
  | id => exact ⟨_, rfl, .id⟩
  | int low high => exact ⟨_, rfl, .int low high⟩
  | @bop op lhs rhs _ _ _ v _ _ _ isResult ihl ihr =>
      obtain ⟨lhs', givesLhs, left⟩ := ihl
      obtain ⟨rhs', givesRhs, right⟩ := ihr
      have children : Attempt.Gives (callOnChildren (keepType node) (.bop op lhs rhs))
          (.bop op lhs' rhs') := by
        simp only [callOnChildren, Attempt.gives_bind_iff, Attempt.gives_pure_iff]
        exact ⟨_, givesLhs, _, givesRhs, rfl⟩
      by_cases redex : (Term.bop op lhs' rhs').IsRedex
      · cases redex with
        | addNegative _ _ negative =>
            obtain rfl := Option.some.inj isResult
            exact ⟨_, callRecursivelyOnTterm_gives_iff.mpr
              ⟨_, children, some _, if_pos negative, rfl⟩, left.negate right negative⟩
      · exact ⟨_, callRecursivelyOnTterm_gives_iff.mpr
          ⟨_, children, none, simplifyNode_of_not_isRedex redex, rfl⟩, .bop left right isResult⟩
  | @cast tt _ v _ _ _ ih =>
      obtain ⟨tt', gives, inside⟩ := ih
      have children : Attempt.Gives (callOnChildren (keepType node) (.cast (intType false v) tt))
          (.cast (intType false v) tt') := by
        simp only [callOnChildren, Attempt.gives_bind_iff, Attempt.gives_pure_iff]
        exact ⟨_, gives, rfl⟩
      by_cases redex : (Term.cast (intType false v) tt').IsRedex
      · cases redex with
        | castCast _ sub t =>
            have normal := normal_of_traversal normal_of_simplifyTterm gives
            obtain ⟨rfl, outside⟩ := inside.of_cast
            refine ⟨_, callRecursivelyOnTterm_gives_iff.mpr
              ⟨_, children, some (.cast (intType false v) sub), ?_, rfl⟩, outside _⟩
            simp only [node, simplifyNode, if_pos, Attempt.gives_bind_iff, Attempt.gives_pure_iff]
            exact ⟨_, traversal_of_normal normal, rfl⟩
      · exact ⟨_, callRecursivelyOnTterm_gives_iff.mpr
          ⟨_, children, none, simplifyNode_of_not_isRedex redex, rfl⟩, .cast inside⟩

/-- The translation of an expression at a type has its value modulo that
type. -/
def Renders
    (env : String → ℤ)
    (raw : Expr → Ttype → Option Tterm)
    (exp : Expr)
    (v : Width) :
    Prop :=
  ∀ n, exp.value env = some n →
    ∃ tt, raw exp (intType false v) = some tt ∧ Denotes env v tt (n % 2 ^ v.bits)

theorem parseInt_emod
    {n : ℕ}
    {i : ℤ}
    (parsed : parseInt n = some i) :
    i % 2 ^ v.bits = n % 2 ^ v.bits := by
  have wrapped : i = n ∨ i = n - 2 ^ 64 := by grind [parseInt]
  cases v <;> simp only [Width.bits] <;> omega

theorem parseInt_bounds
    {n : ℕ}
    {i : ℤ}
    (parsed : parseInt n = some i) :
    -2 ^ 62 < i ∧ i < 2 ^ 62 := by
  have negative : ∀ m ∈ negativeConstants, 2 ^ 64 - 2 ^ 62 < m ∧ m < 2 ^ 64 := by decide
  grind [parseInt]

theorem makeCastIfNeeded_renders
    (denotes : Denotes env w tt a)
    (fits : a % 2 ^ w.bits = a) :
    Denotes env v (makeCastIfNeeded tt (intType false w) (intType false v))
      (a % 2 ^ v.bits) := by
  unfold makeCastIfNeeded
  split
  · next same =>
      rw [← intType_injective same, fits]
      exact denotes
  · split
    · next narrow =>
        obtain ⟨isW32, isW16⟩ := narrow
        cases w <;> cases isW32
        cases v <;> cases isW16
        have mask : a.toNat &&& 65535 = a.toNat % 65536 := Nat.and_two_pow_sub_one_eq_mod _ 16
        have same : ((a.toNat &&& 65535 : ℕ) : ℤ) % 2 ^ 32 % 2 ^ 16 = a % 2 ^ 16 := by
          rw [mask]
          simp only [Width.bits] at fits
          omega
        rw [Width.bits, ← same]
        exact .cast (v := .w16) (.bop (u := .w32) denotes (.int (by decide) (by decide)) rfl)
    · exact .cast denotes

theorem atomValue_renders
    {n : ℕ}
    {i : ℤ}
    (parsed : parseInt n = some i) :
    ∃ tt,
      atomValue n (intType false v) = some tt ∧
        Denotes env v tt ((n : ℤ) % 2 ^ v.bits) := by
  have other : n ≠ 18446744073709551611 := by
    rintro rfl
    have none : parseInt 18446744073709551611 = none := by decide
    simp [none] at parsed
  have bounds := parseInt_bounds parsed
  refine ⟨⟨.int i, intType false v⟩, by simp [atomValue, other, parsed], ?_⟩
  rw [← parseInt_emod parsed]
  exact .int bounds.1 bounds.2

theorem translateNode_renders
    {raw : Expr → Ttype → Option Tterm}
    (ih : ∀ arg u,
      arg.depth < exp.depth → Translatable arg u → Renders env raw arg u)
    (ok : Translatable exp v) :
    Renders env (fun exp t => translateNode raw t exp) exp v := by
  intro n isValue
  cases ok with
  | const _ parsed =>
      cases isValue
      exact atomValue_renders parsed
  | bare parsed =>
      cases isValue
      exact atomValue_renders parsed
  | @read _ name =>
      simp only [Expr.value, Option.ite_none_right_eq_some, Option.some.injEq] at isValue
      exact ⟨_, rfl, isValue.2 ▸ .id⟩
  | zExt _ _ ok => exact ih _ _ (Nat.lt_succ_self _) ok n isValue
  | byte ok =>
      obtain ⟨m, isSource, rfl⟩ := value_extract_iff.mp isValue
      rw [Int.emod_emod]
      exact ih _ _ (Nat.lt_succ_self _) ok m isSource
  | extract wide le width ok =>
      obtain ⟨m, isSource, rfl⟩ := value_extract_iff.mp isValue
      obtain ⟨tt, isTerm, denotes⟩ := ih _ _ (Nat.lt_succ_self _) ok m isSource
      rw [emod_value ok width isSource] at denotes
      have srct : guessType _ .uunknown = _ := congrArg (Option.map (intType false)) width
      simp only [translateNode, int_intType, srct, isTerm, Option.map_some, Option.bind_eq_bind,
        Option.bind_some, Nat.not_lt.mpr le, Bool.false_eq_true, if_false]
      split
      · next same =>
          rw [same, Int.emod_emod]
          exact ⟨_, rfl, makeCastIfNeeded_renders denotes (emod_value ok width isSource)⟩
      · exact ⟨_, rfl, .cast (.cast (u := v) denotes)⟩
  | add guessed okl okr =>
      obtain ⟨l, isLeft, r, isRight, result, isResult, rfl⟩ := value_arith_iff.mp isValue
      obtain ⟨lhs, lhsTerm, left⟩ := ih _ _ (by grind [Expr.depth]) okl l isLeft
      obtain ⟨rhs, rhsTerm, right⟩ := ih _ _ (by grind [Expr.depth]) okr r isRight
      refine ⟨_, by simp [translateNode, guessed, lhsTerm, rhsTerm]; rfl, ?_⟩
      exact makeCastIfNeeded_renders (.bop left right isResult) (Int.emod_emod _ _)
  | @arith op _ _ _ _ other guessed le okl okr =>
      obtain ⟨l, isLeft, r, isRight, result, isResult, rfl⟩ := value_arith_iff.mp isValue
      obtain ⟨lhs, lhsTerm, left⟩ := ih _ _ (by grind [Expr.depth]) okl l isLeft
      obtain ⟨rhs, rhsTerm, right⟩ := ih _ _ (by grind [Expr.depth]) okr r isRight
      rw [emod_emod_of_le le]
      refine ⟨_, ?_, .bop left right isResult⟩
      cases op <;> simp_all [translateNode, Arith.bop]

theorem getSexpValueRaw_renders
    (fuel : ℕ)
    (enough : exp.depth < fuel)
    (ok : Translatable exp v) :
    Renders env (getSexpValueRaw fuel) exp v := by
  induction fuel generalizing exp v with
  | zero => omega
  | succ fuel ih =>
      intro n isValue
      rw [← canonicalize_value] at isValue
      have shorter := canonicalize_depth exp
      simp only [getSexpValueRaw, guessType_intType, Option.bind_eq_bind, Option.bind_some]
      exact translateNode_renders (fun arg u less ok => ih (by omega) ok)
        (canonicalize_translatable ok) n isValue

theorem getSexpValue_gives
    {fuel : ℕ}
    {t : Ttype}
    (isTerm : getSexpValueRaw fuel exp t = some tt)
    (denotes : Denotes env u tt n) :
    ∃ result,
      (getSexpValue fuel exp t).Gives result ∧ eval env result = some n := by
  obtain ⟨result, gives, simplified⟩ := denotes.simplify
  refine ⟨result, ?_, simplified.eval_eq⟩
  rw [getSexpValue, isTerm]
  exact gives

/-- A translatable expression, at the unsigned type of its width, becomes a term
with its value. -/
theorem translation_preserves_value
    {fuel : ℕ}
    (isWidth : exp.width? = some w)
    (ok : Translatable exp w)
    (isValue : exp.value env = some n)
    (enough : exp.depth < fuel) :
    ∃ tt,
      (getSexpValue fuel exp (intType false w)).Gives tt ∧
        eval env tt = some n := by
  obtain ⟨_, isTerm, denotes⟩ := getSexpValueRaw_renders fuel enough ok n isValue
  rw [emod_value ok isWidth isValue] at denotes
  exact getSexpValue_gives isTerm denotes

theorem translation_preserves_value_port :
    ∃ tt,
      (getSexpValue 4
        (.extract .w16 (.arith .add .w32 (.zExt .w32 (.read .w16 "port"))
        (.const .w32 1))) .uint16).Gives tt ∧
          eval (fun _ => 65535) tt = some 0 :=
  translation_preserves_value (w := .w16) rfl
    (.extract (by decide) (by decide) rfl
      (.add rfl (.zExt rfl (by decide) .read) (.const (by decide) rfl)))
    (by decide) (by decide)

/-- A sign extension from 32 bits becomes a term with the value before it, which
is right for nonnegative numbers only. -/
theorem sign_extension_exact_iff
    {fuel : ℕ}
    {arg : Expr}
    (isWidth : arg.width? = some .w32)
    (ok : Translatable arg .w32)
    (isValue : arg.value env = some n)
    (enough : arg.depth < fuel) :
    ∃ tt,
      (getSexpValue (fuel + 1) (.sExt .w64 arg) .uint64).Gives tt ∧
        eval env tt = some n ∧
      (eval env tt = (Expr.sExt .w64 arg).value env ↔ n < 2 ^ 31) := by
  obtain ⟨tt, isTerm, denotes⟩ := getSexpValueRaw_renders fuel
    (Nat.lt_of_le_of_lt (canonicalize_depth arg) enough) (canonicalize_translatable ok) n
    ((canonicalize_value env arg).trans isValue)
  have fits := emod_value ok isWidth isValue
  have extended : n % 2 ^ Width.w64.bits = n := by rw [← fits, emod_emod_of_le (by decide)]
  have whole : getSexpValueRaw (fuel + 1) (.sExt .w64 arg) .uint64 =
      some ⟨.cast .uint64 tt, .uint64⟩ := by
    change (getSexpValueRaw fuel (canonicalizeSexp arg) (intType false .w32)).bind _ = _
    rw [isTerm]
    rfl
  rw [fits] at denotes
  obtain ⟨result, gives, value⟩ := getSexpValue_gives whole (.cast (v := .w64) (u := .w64) denotes)
  rw [extended] at value
  refine ⟨result, gives, value, ?_⟩
  simp only [value, Expr.value, isValue, isWidth, Option.bind_eq_bind,
    Option.bind_some, Option.pure_def, Option.some.injEq, Width.bits] at fits ⊢
  rw [Int.bmod]
  split <;> omega

theorem sign_extension_differs_at_minus_one :
    ∃ tt, (getSexpValue 2 (.sExt .w64 (.read .w32 "delta")) .uint64).Gives tt ∧
      eval (fun _ => 2 ^ 32 - 1) tt ≠
        (Expr.sExt .w64 (.read .w32 "delta")).value fun _ => 2 ^ 32 - 1 := by
  obtain ⟨tt, gives, _, same_iff⟩ := @sign_extension_exact_iff (fun _ => 2 ^ 32 - 1) (2 ^ 32 - 1) 1
    (.read .w32 "delta") rfl .read (by decide) (by decide)
  exact ⟨tt, gives, fun same => absurd (same_iff.mp same) (by decide)⟩

end Validator
end Vigor
