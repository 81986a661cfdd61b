import ExprLang.Proofs.RenderedPrograms

/-!
Complete trees: those whose operators are operators of the language and have their operands. Which
names and numbers a tree may hold is up to a lexicon. Beside them, induction on trees, whose
expressions and statements are nested in lists, and the expressions inside a tree.
-/

namespace ExprLang

section
variable {P : Expr → Prop} {Q : Stmt → Prop}

/-- What holds of each node if it holds of all that the node is made of. -/
theorem Tree.induct (name : ∀ text, P (.name text)) (number : ∀ value, P (.number value))
    (truth : ∀ b, P (.truth b)) (unary : ∀ op x, (∀ e ∈ x, P e) → P (.unary op x))
    (binary : ∀ op x y, P x → (∀ e ∈ y, P e) → P (.binary op x y))
    (conditional : ∀ c t e, P c → (∀ s ∈ t, Q s) → (∀ b ∈ e, ∀ s ∈ b, Q s) →
      P (.conditional c t e))
    (function : ∀ ps b, (∀ s ∈ b, Q s) → P (.function ps b))
    (call : ∀ f as, P f → (∀ a ∈ as, P a) → P (.call f as))
    (binding : ∀ name x, P x → Q (.binding name x)) (ret : ∀ x, (∀ e ∈ x, P e) → Q (.ret x))
    (expr : ∀ x, P x → Q (.expr x)) (block : ∀ b, (∀ s ∈ b, Q s) → Q (.block b)) :
    (∀ e, P e) ∧ ∀ s, Q s := by
  have hnone {α : Type} {R : α → Prop} : ∀ a ∈ (none : Option α), R a := by simp
  have hsome {α : Type} {R : α → Prop} (a : α) (h : R a) : ∀ b ∈ some a, R b := by simpa
  have hnil {α : Type} {R : α → Prop} : ∀ a ∈ ([] : List α), R a := by simp
  have hcons {α : Type} {R : α → Prop} (a : α) (as : List α) (h : R a) (hs : ∀ b ∈ as, R b) :
      ∀ b ∈ a :: as, R b := List.forall_mem_cons.mpr ⟨h, hs⟩
  constructor
  · exact @Expr.rec P Q (∀ e ∈ ·, P e) (∀ s ∈ ·, Q s) (∀ b ∈ ·, ∀ s ∈ b, Q s) (∀ e ∈ ·, P e) name
      number truth unary binary conditional function call binding ret expr block hnone hsome hnil
      hcons hnone hsome hnil hcons
  · exact @Stmt.rec P Q (∀ e ∈ ·, P e) (∀ s ∈ ·, Q s) (∀ b ∈ ·, ∀ s ∈ b, Q s) (∀ e ∈ ·, P e) name
      number truth unary binary conditional function call binding ret expr block hnone hsome hnil
      hcons hnone hsome hnil hcons

end

/-- Which names and which numbers a tree may hold. -/
structure Lexicon where
  name : String → Prop
  number : Int → Prop

namespace Lexicon

/-- What can be written: numbers have no sign. -/
def written : Lexicon :=
  { name := IsName, number := fun n => 0 ≤ n ∧ n ≤ maxInteger }

/-- Names that can be written, and all integers of the evaluator. -/
def signed : Lexicon :=
  { name := IsName, number := fun n => inRange n = true }

/-- Any names, and all integers of the evaluator. -/
def machine : Lexicon :=
  { name := fun _ => True, number := fun n => inRange n = true }

end Lexicon

theorem inRange_iff {n : Int} : inRange n = true ↔ -(maxInteger + 1) ≤ n ∧ n ≤ maxInteger :=
  decide_eq_true_iff

theorem Lexicon.inRange_of_written {n : Int} (h : written.number n) : inRange n = true := by
  obtain ⟨hl, hu⟩ : 0 ≤ n ∧ n ≤ maxInteger := h
  exact inRange_iff.mpr ⟨by omega, hu⟩

mutual
inductive Expr.Complete (words : Lexicon) : Expr → Prop where
  | name {word : String} (hw : words.name word) : Expr.Complete words (.name (some word))
  | number {n : Int} (hn : words.number n) : Expr.Complete words (.number (some n))
  | truth (b : Bool) : Expr.Complete words (.truth b)
  | unary {op : TokenKind} {x : Expr} (hop : op.isSign = true) (hx : Expr.Complete words x) :
      Expr.Complete words (.unary op (some x))
  | binary {op : TokenKind} {x y : Expr} {l : Layer} (hop : l.has op = true)
      (hx : Expr.Complete words x) (hy : Expr.Complete words y) :
      Expr.Complete words (.binary op x (some y))
  | conditional {c : Expr} {b : List Stmt} {e : Option (List Stmt)} (hc : Expr.Complete words c)
      (hb : ∀ s ∈ b, Stmt.Complete words s) (he : ∀ b' ∈ e, ∀ s ∈ b', Stmt.Complete words s) :
      Expr.Complete words (.conditional c b e)
  | function {ps : List (Option String)} {b : List Stmt}
      (hp : ∀ p ∈ ps, ∃ word, p = some word ∧ words.name word)
      (hb : ∀ s ∈ b, Stmt.Complete words s) : Expr.Complete words (.function ps b)
  | call {f : Expr} {as : List Expr} (hf : Expr.Complete words f)
      (ha : ∀ a ∈ as, Expr.Complete words a) : Expr.Complete words (.call f as)

inductive Stmt.Complete (words : Lexicon) : Stmt → Prop where
  | binding {word : String} {x : Expr} (hw : words.name word) (hx : Expr.Complete words x) :
      Stmt.Complete words (.binding (some word) x)
  | bareReturn : Stmt.Complete words (.ret none)
  | valueReturn {x : Expr} (hx : Expr.Complete words x) : Stmt.Complete words (.ret (some x))
  | expr {x : Expr} (hx : Expr.Complete words x) : Stmt.Complete words (.expr x)
  | block {b : List Stmt} (hb : ∀ s ∈ b, Stmt.Complete words s) : Stmt.Complete words (.block b)
end

mutual
theorem Expr.WellFormed.complete : {e : Expr} → e.WellFormed → e.Complete .written
  | _, .name hw => .name hw
  | _, .number hl hu => .number ⟨hl, hu⟩
  | _, .truth b => .truth b
  | _, .unary hop hx => .unary hop hx.complete
  | _, .binary hop hx hy => .binary hop hx.complete hy.complete
  | _, .conditional hc hb he => .conditional hc.complete (fun s hs => (hb s hs).complete)
      fun b' hb' s hs => (he b' hb' s hs).complete
  | _, .function hp hb => .function hp fun s hs => (hb s hs).complete
  | _, .call hf ha => .call hf.complete fun a has => (ha a has).complete

theorem Stmt.WellFormed.complete : {s : Stmt} → s.WellFormed → s.Complete .written
  | _, .binding hw hx => .binding hw hx.complete
  | _, .bareReturn => .bareReturn
  | _, .valueReturn hx => .valueReturn hx.complete
  | _, .expr hx => .expr hx.complete
  | _, .block hb => .block fun s hs => (hb s hs).complete
end

mutual
/-- The expressions inside an expression, which is the first of them. -/
def Expr.parts : Expr → List Expr
  | .name text => [.name text]
  | .number value => [.number value]
  | .truth b => [.truth b]
  | .unary op x => .unary op x :: Expr.partsOption x
  | .binary op x y => .binary op x y :: (x.parts ++ Expr.partsOption y)
  | .conditional c t e =>
    .conditional c t e :: (c.parts ++ (Stmt.partsList t ++ Stmt.partsOption e))
  | .function ps b => .function ps b :: Stmt.partsList b
  | .call f as => .call f as :: (f.parts ++ Expr.partsList as)
termination_by structural e => e

def Expr.partsOption : Option Expr → List Expr
  | none => []
  | some x => x.parts
termination_by structural x => x

def Expr.partsList : List Expr → List Expr
  | [] => []
  | e :: es => e.parts ++ Expr.partsList es
termination_by structural es => es

def Stmt.parts : Stmt → List Expr
  | .binding _ x => x.parts
  | .ret x => Expr.partsOption x
  | .expr x => x.parts
  | .block b => Stmt.partsList b
termination_by structural s => s

def Stmt.partsList : List Stmt → List Expr
  | [] => []
  | s :: ss => s.parts ++ Stmt.partsList ss
termination_by structural ss => ss

def Stmt.partsOption : Option (List Stmt) → List Expr
  | none => []
  | some b => Stmt.partsList b
termination_by structural b => b
end

def Program.parts (program : Program) : List Expr :=
  Stmt.partsList program

section
variable {x : Expr}

theorem Stmt.mem_partsList {ss : List Stmt} :
    x ∈ Stmt.partsList ss ↔ ∃ s ∈ ss, x ∈ s.parts := by
  induction ss with
  | nil => simp [Stmt.partsList]
  | cons s ss ih => simp [Stmt.partsList, ih]

theorem Expr.mem_partsList {es : List Expr} :
    x ∈ Expr.partsList es ↔ ∃ e ∈ es, x ∈ e.parts := by
  induction es with
  | nil => simp [Expr.partsList]
  | cons e es ih => simp [Expr.partsList, ih]

theorem Stmt.mem_partsOption {e : Option (List Stmt)} :
    x ∈ Stmt.partsOption e ↔ ∃ b ∈ e, ∃ s ∈ b, x ∈ s.parts := by
  cases e with
  | none => simp [Stmt.partsOption]
  | some b => simp [Stmt.partsOption, Stmt.mem_partsList]

end

section
variable {words : Lexicon}

mutual
theorem Expr.Complete.part : {e : Expr} → e.Complete words → ∀ x ∈ e.parts, x.Complete words
  | _, .name hw, x, hx => List.mem_singleton.mp hx ▸ .name hw
  | _, .number hn, x, hx => List.mem_singleton.mp hx ▸ .number hn
  | _, .truth b, x, hx => List.mem_singleton.mp hx ▸ .truth b
  | _, .unary hop ho, x, hx => by
    rcases List.mem_cons.mp hx with rfl | hx
    · exact .unary hop ho
    · exact ho.part x hx
  | _, .binary hop hl hr, x, hx => by
    rcases List.mem_cons.mp hx with rfl | hx
    · exact .binary hop hl hr
    · rcases List.mem_append.mp hx with hx | hx
      · exact hl.part x hx
      · exact hr.part x hx
  | _, .conditional hc hb he, x, hx => by
    rcases List.mem_cons.mp hx with rfl | hx
    · exact .conditional hc hb he
    · rcases List.mem_append.mp hx with hx | hx
      · exact hc.part x hx
      · rcases List.mem_append.mp hx with hx | hx
        · obtain ⟨s, hs, hx⟩ := Stmt.mem_partsList.mp hx
          exact (hb s hs).part x hx
        · obtain ⟨b', hb', s, hs, hx⟩ := Stmt.mem_partsOption.mp hx
          exact (he b' hb' s hs).part x hx
  | _, .function hp hb, x, hx => by
    rcases List.mem_cons.mp hx with rfl | hx
    · exact .function hp hb
    · obtain ⟨s, hs, hx⟩ := Stmt.mem_partsList.mp hx
      exact (hb s hs).part x hx
  | _, .call hf ha, x, hx => by
    rcases List.mem_cons.mp hx with rfl | hx
    · exact .call hf ha
    · rcases List.mem_append.mp hx with hx | hx
      · exact hf.part x hx
      · obtain ⟨a, has, hx⟩ := Expr.mem_partsList.mp hx
        exact (ha a has).part x hx

theorem Stmt.Complete.part : {s : Stmt} → s.Complete words → ∀ x ∈ s.parts, x.Complete words
  | _, .binding _ hv, x, hx => hv.part x hx
  | _, .bareReturn, x, hx => absurd hx (List.not_mem_nil)
  | _, .valueReturn hv, x, hx => hv.part x hx
  | _, .expr hv, x, hx => hv.part x hx
  | _, .block hb, x, hx => by
    obtain ⟨s, hs, hx⟩ := Stmt.mem_partsList.mp hx
    exact (hb s hs).part x hx
end

theorem Program.complete_part {program : Program} (h : ∀ s ∈ program, s.Complete words) :
    ∀ x ∈ program.parts, x.Complete words := by
  intro x hx
  obtain ⟨s, hs, hx⟩ := Stmt.mem_partsList.mp hx
  exact (h s hs).part x hx

end

end ExprLang
