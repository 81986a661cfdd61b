import ExprLang.Proofs.CompleteTrees
import ExprLang.Proofs.QuotedText
import ExprLang.Tree.Dump

/-!
Dumps tell trees apart. No line says where a tree ends, but its first line names its sort, which has
a fixed list of fields; a list of trees ends in a line that no tree begins with.
-/

namespace ExprLang

section
variable {k : Int}

@[simp] theorem dumpLine_inj {a b : String} : dumpLine k a = dumpLine k b ↔ a = b :=
  String.append_right_inj _

@[simp] theorem dumpField_inj {field a b : String} :
    dumpField k field a = dumpField k field b ↔ a = b := by
  rw [dumpField, dumpField, dumpLine_inj, String.append_right_inj]

theorem dumpField_ne_heading (field value : String) :
    dumpField k field value ≠ dumpLine k ("  " ++ field ++ ":") := by
  intro h
  have hc : ": " ++ value = ":" := by
    simpa only [dumpField, dumpLine_inj, String.append_assoc, String.append_right_inj] using h
  simpa using congrArg String.toList hc

end

section
variable {α : Type} {k : Int} {field : String}

/-- The lines of a value, with anything behind them, are those of no other value. -/
def Legible (lines : α → List String) (a : α) : Prop :=
  ∀ b rest rest', lines a ++ rest = lines b ++ rest' → a = b ∧ rest = rest'

variable {lines : α → List String}

theorem Legible.child {a : α} (h : Legible lines a) :
    Legible (fun a => dumpChild k field (lines a)) a :=
  fun b rest rest' heq => h b rest rest' (List.cons.inj heq).2

/-- A field with one of the values, or with none. -/
def dumpOptional (k : Int) (field : String) (lines : α → List String) : Option α → List String
  | none => [dumpField k field "None"]
  | some a => dumpChild k field (lines a)

theorem legible_optional {x : Option α} (h : ∀ a ∈ x, Legible lines a) :
    Legible (dumpOptional k field lines) x := by
  intro y rest rest' heq
  cases x with
  | none =>
    cases y with
    | none => exact ⟨rfl, (List.cons.inj heq).2⟩
    | some b => exact absurd (List.cons.inj heq).1 (dumpField_ne_heading _ _)
  | some a =>
    cases y with
    | none => exact absurd (List.cons.inj heq).1.symm (dumpField_ne_heading _ _)
    | some b =>
      obtain ⟨rfl, hr⟩ := (h a rfl).child b rest rest' heq
      exact ⟨rfl, hr⟩

theorem legible_items {close : String}
    (hc : ∀ a, ∃ head tail, lines a = head :: tail ∧ head ≠ close) {as : List α}
    (h : ∀ a ∈ as, Legible lines a) :
    Legible (fun as => as.flatMap lines ++ [close]) as := by
  -- Where one list goes on and the other ends, an item begins in the same line as the closing one.
  induction as with
  | nil =>
    intro bs rest rest' heq
    cases bs with
    | nil => exact ⟨rfl, (List.cons.inj heq).2⟩
    | cons b bs =>
      obtain ⟨head, tail, hb, hn⟩ := hc b
      simp only [List.flatMap_cons, hb] at heq
      exact absurd (List.cons.inj heq).1.symm hn
  | cons a as ih =>
    intro bs rest rest' heq
    cases bs with
    | nil =>
      obtain ⟨head, tail, ha, hn⟩ := hc a
      simp only [List.flatMap_cons, ha] at heq
      exact absurd (List.cons.inj heq).1 hn
    | cons b bs =>
      simp only [List.flatMap_cons, List.append_assoc] at heq
      obtain ⟨rfl, heq⟩ := h a (by simp) b _ _ heq
      obtain ⟨rfl, hr⟩ := ih (fun a' ha' => h a' (by simp [ha'])) bs rest rest' (by simpa using heq)
      exact ⟨rfl, hr⟩

theorem legible_list (hc : ∀ a, ∃ head tail, lines a = head :: tail ∧ head ≠ dumpLine k "  ]")
    {as : List α} (h : ∀ a ∈ as, Legible lines a) :
    Legible (fun as => dumpList k field (as.flatMap lines)) as :=
  fun bs rest rest' heq => legible_items hc h bs rest rest' (List.cons.inj heq).2

end

theorem elim_none_injective {α : Type} {f : α → String} (hf : ∀ {a b}, f a = f b → a = b)
    (hn : ∀ a, f a ≠ "None") {x y : Option α} (h : x.elim "None" f = y.elim "None" f) : x = y := by
  cases x with
  | none =>
    cases y with
    | none => rfl
    | some b => exact absurd h.symm (hn b)
  | some a =>
    cases y with
    | none => exact absurd h (hn a)
    | some b => exact congrArg some (hf h)

theorem isDigit_of_mem_repr {n : Nat} {c : Char} (h : c ∈ n.repr.toList) : c.isDigit = true := by
  rw [Nat.toList_repr] at h
  exact Nat.isDigit_of_mem_toDigits (by decide) (by decide) h

theorem natRepr_injective {m n : Nat} (h : m.repr = n.repr) : m = n := by
  have hl := congrArg String.toList h
  rw [Nat.toList_repr, Nat.toList_repr] at hl
  have hd := congrArg (Nat.ofDigitChars 10 · 0) hl
  simpa only [Nat.ofDigitChars_toDigits (b := 10) (by decide) (by decide)] using hd

theorem natRepr_ne_minus (m n : Nat) : m.repr ≠ "-" ++ n.repr := by
  intro h
  have hd := isDigit_of_mem_repr (n := m) (c := '-')
  simp [h] at hd

theorem intRepr_injective {m n : Int} (h : m.repr = n.repr) : m = n := by
  cases m with
  | ofNat m =>
    cases n with
    | ofNat n => exact congrArg Int.ofNat (natRepr_injective h)
    | negSucc n => exact absurd h (natRepr_ne_minus _ _)
  | negSucc m =>
    cases n with
    | ofNat n => exact absurd h.symm (natRepr_ne_minus _ _)
    | negSucc n =>
      have hd := natRepr_injective ((String.append_right_inj "-").mp h)
      rw [Nat.succ.inj hd]

theorem intRepr_ne_none (n : Int) : n.repr ≠ "None" := by
  intro h
  cases n with
  | ofNat m =>
    have hd := isDigit_of_mem_repr (n := m) (c := 'N')
    rw [show m.repr = "None" from h] at hd
    simp at hd
  | negSucc m => simpa [Int.repr] using congrArg String.toList h

/-- Where a list ends, no tree begins. -/
theorem dumpLine_ne_close {k j : Int} {label : String} (h : ']' ∉ label.toList) :
    dumpLine k label ≠ dumpLine j "  ]" := by
  intro heq
  have hm : ']' ∈ (dumpLine k label).toList := by
    rw [heq]
    simp [dumpLine]
  simp [dumpLine, h] at hm

section
variable {k j : Int}

theorem legible_name (name : Option String) : Legible (dumpName k) name := by
  intro other rest rest' heq
  simp only [dumpName, List.cons_append, List.nil_append, List.cons.injEq, dumpField_inj,
    true_and] at heq
  exact ⟨elim_none_injective Text.quoted_injective Text.quoted_ne_none heq.1, heq.2⟩

theorem dumpName_head (name : Option String) :
    ∃ head tail, dumpName k name = head :: tail ∧ head ≠ dumpLine j "  ]" :=
  ⟨_, _, rfl, dumpLine_ne_close (by decide)⟩

theorem Expr.dump_conditional (c : Expr) (t : List Stmt) (e : Option (List Stmt)) :
    (Expr.conditional c t e).dump k =
      dumpLine k "IfExpression" :: dumpChild k "condition" (c.dump (k + 2))
        ++ dumpChild k "consequence" (dumpBody (k + 2) (Stmt.dumps t (k + 4)))
        ++ dumpOptional k "alternative" (fun b => dumpBody (k + 2) (Stmt.dumps b (k + 4))) e := by
  cases e <;> rfl

theorem Expr.dumpOption_eq (field : String) (x : Option Expr) :
    Expr.dumpOption field x k = dumpOptional k field (fun e => e.dump (k + 2)) x := by
  cases x <;> rfl

theorem Expr.dumps_eq (es : List Expr) : Expr.dumps es k = es.flatMap fun e => e.dump k := by
  induction es with
  | nil => rfl
  | cons e es ih => rw [Expr.dumps, ih, List.flatMap_cons]

theorem Stmt.dumps_eq (ss : List Stmt) : Stmt.dumps ss k = ss.flatMap fun s => s.dump k := by
  induction ss with
  | nil => rfl
  | cons s ss ih => rw [Stmt.dumps, ih, List.flatMap_cons]

theorem Node.dump_eq_cons (n : Node) : ∃ fields, n.dump k = dumpLine k n.label :: fields := by
  cases n with
  | program p => exact ⟨_, rfl⟩
  | stmt s => cases s <;> exact ⟨_, rfl⟩
  | expr e =>
    cases e with
    | conditional c t e => exact ⟨_, Expr.dump_conditional c t e⟩
    | _ => exact ⟨_, rfl⟩

theorem Node.dump_head (n : Node) :
    ∃ head tail, n.dump k = head :: tail ∧ head ≠ dumpLine j "  ]" := by
  obtain ⟨fields, hn⟩ := n.dump_eq_cons (k := k)
  refine ⟨_, fields, hn, dumpLine_ne_close ?_⟩
  cases n with
  | program p => simp [label]
  | stmt s => cases s <;> simp [label, Stmt.label]
  | expr e => cases e <;> simp [label, Expr.label]

theorem Node.label_eq {a b : Node} {rest rest' : List String}
    (h : a.dump k ++ rest = b.dump k ++ rest') : a.label = b.label := by
  obtain ⟨fields, ha⟩ := a.dump_eq_cons (k := k)
  obtain ⟨fields', hb⟩ := b.dump_eq_cons (k := k)
  rw [ha, hb] at h
  exact dumpLine_inj.mp (List.cons.inj h).1

theorem Expr.label_eq {a b : Expr} {rest rest' : List String}
    (h : a.dump k ++ rest = b.dump k ++ rest') : a.label = b.label :=
  Node.label_eq (a := .expr a) (b := .expr b) h

theorem Stmt.label_eq {a b : Stmt} {rest rest' : List String}
    (h : a.dump k ++ rest = b.dump k ++ rest') : a.label = b.label :=
  Node.label_eq (a := .stmt a) (b := .stmt b) h

theorem legible_body {ss : List Stmt} (h : ∀ s ∈ ss, Legible (fun s : Stmt => s.dump j) s) :
    Legible (fun ss => dumpBody k (Stmt.dumps ss j)) ss := by
  intro ts rest rest' heq
  simp only [dumpBody, Stmt.dumps_eq] at heq
  exact legible_list (fun s => Node.dump_head (.stmt s)) h ts rest rest' (List.cons.inj heq).2

theorem legible_unary (op : TokenKind) {x : Option Expr}
    (hx : ∀ e ∈ x, Legible (fun e : Expr => e.dump (k + 2)) e) :
    Legible (fun e : Expr => e.dump k) (.unary op x) := by
  -- The same first line leaves only this sort of expression; then the fields are read in turn.
  intro b rest rest' h
  have hl := Expr.label_eq h
  cases b with
  | unary op' x' =>
    simp only [Expr.dump, Expr.dumpOption_eq, List.cons_append, List.cons.injEq, dumpField_inj,
      true_and] at h
    obtain ⟨ho, h⟩ := h
    obtain rfl := TokenKind.label_injective ho
    obtain ⟨rfl, hr⟩ := legible_optional hx _ _ _ h
    exact ⟨rfl, hr⟩
  | _ => simp [Expr.label] at hl

theorem legible_binary (op : TokenKind) {x : Expr} {y : Option Expr}
    (hx : Legible (fun e : Expr => e.dump (k + 2)) x)
    (hy : ∀ e ∈ y, Legible (fun e : Expr => e.dump (k + 2)) e) :
    Legible (fun e : Expr => e.dump k) (.binary op x y) := by
  intro b rest rest' h
  have hl := Expr.label_eq h
  cases b with
  | binary op' x' y' =>
    simp only [Expr.dump, Expr.dumpOption_eq, List.cons_append, List.append_assoc,
      List.cons.injEq, dumpField_inj, true_and] at h
    obtain ⟨ho, h⟩ := h
    obtain rfl := TokenKind.label_injective ho
    obtain ⟨rfl, hright⟩ := hx.child _ _ _ h
    obtain ⟨rfl, hr⟩ := legible_optional hy _ _ _ hright
    exact ⟨rfl, hr⟩
  | _ => simp [Expr.label] at hl

theorem legible_conditional {c : Expr} {t : List Stmt} {e : Option (List Stmt)}
    (hc : Legible (fun e : Expr => e.dump (k + 2)) c)
    (ht : ∀ s ∈ t, Legible (fun s : Stmt => s.dump (k + 4)) s)
    (he : ∀ b ∈ e, ∀ s ∈ b, Legible (fun s : Stmt => s.dump (k + 4)) s) :
    Legible (fun e : Expr => e.dump k) (.conditional c t e) := by
  intro b rest rest' h
  have hl := Expr.label_eq h
  cases b with
  | conditional c' t' e' =>
    simp only [Expr.dump_conditional, List.cons_append, List.append_assoc, List.cons.injEq,
      true_and] at h
    obtain ⟨rfl, hthen⟩ := hc.child _ _ _ h
    obtain ⟨rfl, helse⟩ := (legible_body ht).child _ _ _ hthen
    obtain ⟨rfl, hr⟩ := legible_optional (fun b hb => legible_body (he b hb)) _ _ _ helse
    exact ⟨rfl, hr⟩
  | _ => simp [Expr.label] at hl

theorem legible_function (ps : List (Option String)) {b : List Stmt}
    (hb : ∀ s ∈ b, Legible (fun s : Stmt => s.dump (k + 4)) s) :
    Legible (fun e : Expr => e.dump k) (.function ps b) := by
  intro e rest rest' h
  have hl := Expr.label_eq h
  cases e with
  | function ps' b' =>
    simp only [Expr.dump, List.cons_append, List.append_assoc, List.cons.injEq, true_and] at h
    obtain ⟨rfl, hbody⟩ := legible_list dumpName_head (fun p _ => legible_name p) _ _ _ h
    obtain ⟨rfl, hr⟩ := (legible_body hb).child _ _ _ hbody
    exact ⟨rfl, hr⟩
  | _ => simp [Expr.label] at hl

theorem legible_call {f : Expr} {as : List Expr}
    (hf : Legible (fun e : Expr => e.dump (k + 2)) f)
    (ha : ∀ a ∈ as, Legible (fun e : Expr => e.dump (k + 2)) a) :
    Legible (fun e : Expr => e.dump k) (.call f as) := by
  intro e rest rest' h
  have hl := Expr.label_eq h
  cases e with
  | call f' as' =>
    simp only [Expr.dump, Expr.dumps_eq, List.cons_append, List.append_assoc, List.cons.injEq,
      true_and] at h
    obtain ⟨rfl, hlist⟩ := hf.child _ _ _ h
    obtain ⟨rfl, hr⟩ := legible_list (fun a => Node.dump_head (.expr a)) ha _ _ _ hlist
    exact ⟨rfl, hr⟩
  | _ => simp [Expr.label] at hl

theorem legible_nameExpr (text : Option String) :
    Legible (fun e : Expr => e.dump k) (.name text) := by
  intro e rest rest' h
  have hl := Expr.label_eq h
  cases e with
  | name text' =>
    obtain ⟨rfl, hr⟩ := legible_name text text' _ _ h
    exact ⟨rfl, hr⟩
  | _ => simp [Expr.label] at hl

theorem legible_number (value : Option Int) :
    Legible (fun e : Expr => e.dump k) (.number value) := by
  intro e rest rest' h
  have hl := Expr.label_eq h
  cases e with
  | number value' =>
    simp only [Expr.dump, List.cons_append, List.nil_append, List.cons.injEq, dumpField_inj,
      true_and] at h
    obtain ⟨hv, hr⟩ := h
    obtain rfl := elim_none_injective intRepr_injective intRepr_ne_none hv
    exact ⟨rfl, hr⟩
  | _ => simp [Expr.label] at hl

theorem legible_truth (value : Bool) : Legible (fun e : Expr => e.dump k) (.truth value) := by
  intro e rest rest' h
  have hl := Expr.label_eq h
  cases e with
  | truth value' =>
    simp only [Expr.dump, List.cons_append, List.nil_append, List.cons.injEq, dumpField_inj,
      true_and] at h
    obtain ⟨hv, hr⟩ := h
    cases value <;> cases value' <;> simp_all
  | _ => simp [Expr.label] at hl

theorem legible_binding (name : Option String) {x : Expr}
    (hx : Legible (fun e : Expr => e.dump (k + 2)) x) :
    Legible (fun s : Stmt => s.dump k) (.binding name x) := by
  intro s rest rest' h
  have hl := Stmt.label_eq h
  cases s with
  | binding name' x' =>
    simp only [Stmt.dump, List.cons_append, List.append_assoc, List.cons.injEq, true_and] at h
    obtain ⟨rfl, hvalue⟩ := (legible_name name).child _ _ _ h
    obtain ⟨rfl, hr⟩ := hx.child _ _ _ hvalue
    exact ⟨rfl, hr⟩
  | _ => simp [Stmt.label] at hl

theorem legible_ret {x : Option Expr}
    (hx : ∀ e ∈ x, Legible (fun e : Expr => e.dump (k + 2)) e) :
    Legible (fun s : Stmt => s.dump k) (.ret x) := by
  intro s rest rest' h
  have hl := Stmt.label_eq h
  cases s with
  | ret x' =>
    simp only [Stmt.dump, Expr.dumpOption_eq, List.cons_append, List.cons.injEq, true_and] at h
    obtain ⟨rfl, hr⟩ := legible_optional hx _ _ _ h
    exact ⟨rfl, hr⟩
  | _ => simp [Stmt.label] at hl

theorem legible_exprStmt {x : Expr} (hx : Legible (fun e : Expr => e.dump (k + 2)) x) :
    Legible (fun s : Stmt => s.dump k) (.expr x) := by
  intro s rest rest' h
  have hl := Stmt.label_eq h
  cases s with
  | expr x' =>
    simp only [Stmt.dump, List.cons_append, List.cons.injEq, true_and] at h
    obtain ⟨rfl, hr⟩ := hx.child _ _ _ h
    exact ⟨rfl, hr⟩
  | _ => simp [Stmt.label] at hl

theorem legible_block {b : List Stmt} (hb : ∀ s ∈ b, Legible (fun s : Stmt => s.dump (k + 2)) s) :
    Legible (fun s : Stmt => s.dump k) (.block b) := by
  intro s rest rest' h
  have hl := Stmt.label_eq h
  cases s with
  | block b' =>
    obtain ⟨rfl, hr⟩ := legible_body hb _ _ _ h
    exact ⟨rfl, hr⟩
  | _ => simp [Stmt.label] at hl

end

theorem legible_dump :
    (∀ (e : Expr) (k : Int), Legible (fun e : Expr => e.dump k) e) ∧
      ∀ (s : Stmt) (k : Int), Legible (fun s : Stmt => s.dump k) s := by
  apply Tree.induct
  case name => exact fun text k => legible_nameExpr text
  case number => exact fun value k => legible_number value
  case truth => exact fun value k => legible_truth value
  case unary => exact fun op x hx k => legible_unary op fun e he => hx e he _
  case binary => exact fun op x y hx hy k => legible_binary op (hx _) fun e he => hy e he _
  case conditional =>
    intro c t e hc ht he k
    exact legible_conditional (hc _) (fun s hs => ht s hs _) fun b hb s hs => he b hb s hs _
  case function => exact fun ps b hb k => legible_function ps fun s hs => hb s hs _
  case call => exact fun f as hf ha k => legible_call (hf _) fun a has => ha a has _
  case binding => exact fun name x hx k => legible_binding name (hx _)
  case ret => exact fun x hx k => legible_ret fun e he => hx e he _
  case expr => exact fun x hx k => legible_exprStmt (hx _)
  case block => exact fun b hb k => legible_block fun s hs => hb s hs _

theorem Node.legible (k : Int) (n : Node) : Legible (Node.dump k) n := by
  intro m rest rest' h
  have hl := Node.label_eq h
  cases n with
  | program p =>
    cases m with
    | program p' =>
      simp only [dump, Stmt.dumps_eq, List.cons_append, List.cons.injEq, true_and] at h
      obtain ⟨rfl, hr⟩ := legible_list (fun s => Node.dump_head (.stmt s))
        (fun s _ => legible_dump.2 s _) _ _ _ h
      exact ⟨rfl, hr⟩
    | stmt s => cases s <;> simp [label, Stmt.label] at hl
    | expr e => cases e <;> simp [label, Expr.label] at hl
  | stmt s =>
    cases m with
    | program p => cases s <;> simp [label, Stmt.label] at hl
    | stmt s' =>
      obtain ⟨rfl, hr⟩ := legible_dump.2 s k s' _ _ h
      exact ⟨rfl, hr⟩
    | expr e => cases s <;> cases e <;> simp [label, Stmt.label, Expr.label] at hl
  | expr e =>
    cases m with
    | program p => cases e <;> simp [label, Expr.label] at hl
    | stmt s => cases s <;> cases e <;> simp [label, Stmt.label, Expr.label] at hl
    | expr e' =>
      obtain ⟨rfl, hr⟩ := legible_dump.1 e k e' _ _ h
      exact ⟨rfl, hr⟩

theorem dumpLine_add {j k : Int} (hj : 0 ≤ j) (hk : 0 ≤ k) (text : String) :
    dumpLine (j + k) text = dumpLine k (dumpLine j text) := by
  have hn : (2 * (j + k)).toNat = (2 * k).toNat + (2 * j).toNat := by omega
  rw [dumpLine, dumpLine, dumpLine, hn, ← List.replicate_append_replicate, String.ofList_append,
    String.append_assoc]

/-- Lines of a level whose indentation grows with the level. -/
def Shifts (lines : Int → List String) : Prop :=
  ∀ j k, 0 ≤ j → 0 ≤ k → lines (j + k) = (lines j).map (dumpLine k)

section
variable {lines lines' : Int → List String} {field : String}

theorem shifts_line (text : String) : Shifts fun k => [dumpLine k text] :=
  fun _ _ hj hk => congrArg (fun line => [line]) (dumpLine_add hj hk text)

theorem shifts_field (field value : String) : Shifts fun k => [dumpField k field value] :=
  shifts_line _

theorem Shifts.append (h : Shifts lines) (h' : Shifts lines') :
    Shifts fun k => lines k ++ lines' k := by
  intro j k hj hk
  simp only [h j k hj hk, h' j k hj hk, List.map_append]

theorem Shifts.deeper {d : Int} (h : Shifts lines) (hd : 0 ≤ d) :
    Shifts fun k => lines (k + d) := by
  intro j k hj hk
  have hs := h (j + d) k (Int.add_nonneg hj hd) hk
  rw [Int.add_right_comm] at hs
  exact hs

theorem Shifts.child (h : Shifts lines) (field : String) :
    Shifts fun k => dumpChild k field (lines k) :=
  (shifts_line _).append h

theorem Shifts.list (h : Shifts lines) : Shifts fun k => dumpList k field (lines k) :=
  ((shifts_line _).append h).append (shifts_line _)

theorem Shifts.body (h : Shifts lines) : Shifts fun k => dumpBody k (lines k) :=
  (shifts_line _).append h.list

theorem shifts_name (name : Option String) : Shifts fun k => dumpName k name :=
  (shifts_line _).append (shifts_field _ _)

theorem shifts_flatMap {α : Type} {lines : Int → α → List String} {as : List α}
    (h : ∀ a ∈ as, Shifts fun k => lines k a) : Shifts fun k => as.flatMap (lines k) := by
  induction as with
  | nil => exact fun _ _ _ _ => rfl
  | cons a as ih => exact (h a (by simp)).append (ih fun a' ha' => h a' (by simp [ha']))

theorem shifts_dumps {ss : List Stmt} (h : ∀ s ∈ ss, Shifts s.dump) : Shifts (Stmt.dumps ss) := by
  have hd : Stmt.dumps ss = fun k => ss.flatMap fun s => s.dump k :=
    funext fun k => Stmt.dumps_eq ss
  rw [hd]
  exact shifts_flatMap h

theorem shifts_dumpOption {x : Option Expr} (h : ∀ e ∈ x, Shifts e.dump) :
    Shifts (Expr.dumpOption field x) := by
  cases x with
  | none => exact shifts_field _ _
  | some e => exact ((h e rfl).deeper (by decide)).child field

/-- A field with a block. The block stands two levels below the node, and its statements four. -/
theorem shifts_consequence {ss : List Stmt} (h : ∀ s ∈ ss, Shifts s.dump) :
    Shifts fun k => dumpChild k field (dumpBody (k + 2) (Stmt.dumps ss (k + 4))) := by
  have hb : Shifts fun k => dumpBody k (Stmt.dumps ss (k + 2)) :=
    ((shifts_dumps h).deeper (by decide)).body
  have hd := (hb.deeper (d := 2) (by decide)).child field
  simpa only [Int.add_assoc, Int.reduceAdd] using hd

end

theorem shifts_dump : (∀ e : Expr, Shifts e.dump) ∧ ∀ s : Stmt, Shifts s.dump := by
  apply Tree.induct
  case name => exact fun text => shifts_name text
  case number => exact fun value => (shifts_line _).append (shifts_field _ _)
  case truth => exact fun value => (shifts_line _).append (shifts_field _ _)
  case unary =>
    intro op x hx
    exact (shifts_line _).append ((shifts_field _ _).append (shifts_dumpOption hx))
  case binary =>
    intro op x y hx hy
    have hleft := (hx.deeper (d := 2) (by decide)).child "left"
    exact ((shifts_line _).append ((shifts_field _ _).append hleft)).append (shifts_dumpOption hy)
  case conditional =>
    intro c t e hc ht he
    have hcondition := (hc.deeper (d := 2) (by decide)).child "condition"
    cases e with
    | none =>
      exact (((shifts_line _).append hcondition).append (shifts_consequence ht)).append
        (shifts_field _ _)
    | some b =>
      exact (((shifts_line _).append hcondition).append (shifts_consequence ht)).append
        (shifts_consequence (he b rfl))
  case function =>
    intro ps b hb
    have hnames : Shifts fun k => ps.flatMap (dumpName k) :=
      shifts_flatMap fun p _ => shifts_name p
    exact ((shifts_line _).append (hnames.deeper (by decide)).list).append (shifts_consequence hb)
  case call =>
    intro f as hf ha
    have hcallee := (hf.deeper (d := 2) (by decide)).child "callee"
    have hd : Expr.dumps as = fun k => as.flatMap fun e => e.dump k :=
      funext fun k => Expr.dumps_eq as
    have has : Shifts (Expr.dumps as) := hd ▸ shifts_flatMap ha
    exact ((shifts_line _).append hcallee).append (has.deeper (by decide)).list
  case binding =>
    intro name x hx
    have hname := ((shifts_name name).deeper (d := 2) (by decide)).child "name"
    exact ((shifts_line _).append hname).append ((hx.deeper (by decide)).child _)
  case ret => exact fun x hx => (shifts_line _).append (shifts_dumpOption hx)
  case expr => exact fun x hx => (shifts_line _).append ((hx.deeper (by decide)).child _)
  case block => exact fun b hb => ((shifts_dumps hb).deeper (by decide)).body

theorem Node.shifts (n : Node) : Shifts fun k => n.dump k := by
  cases n with
  | program p =>
    have hp : Shifts (Stmt.dumps p) := shifts_dumps fun s _ => shifts_dump.2 s
    exact (shifts_line _).append (hp.deeper (by decide)).list
  | stmt s => exact shifts_dump.2 s
  | expr e => exact shifts_dump.1 e

end ExprLang
