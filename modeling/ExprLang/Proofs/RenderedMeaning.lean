import ExprLang.Proofs.EvaluationLevels

/-!
Rendering keeps the meaning of trees with negative numbers. Such a tree is written as the tree in
which negations and a subtraction stand for these numbers. That tree is well-formed, so it is read
back, and it stands for the other one wherever the levels suffice.
-/

namespace ExprLang

open Evaluation ExprLang.Parser

/-- A number without a signed number; the smallest integer has no negation to stand for it. -/
def unsignedNumber (n : Int) : Expr :=
  if 0 ≤ n then .number (some n)
  else if maxInteger < -n then
    .binary .minus (.unary .minus (some (.number (some maxInteger)))) (some (.number (some 1)))
  else .unary .minus (some (.number (some (-n))))

mutual
def Expr.unsigned : Expr → Expr
  | .name text => .name text
  | .number none => .number none
  | .number (some n) => unsignedNumber n
  | .truth b => .truth b
  | .unary op x => .unary op (Expr.unsignedOption x)
  | .binary op x y => .binary op x.unsigned (Expr.unsignedOption y)
  | .conditional c t e => .conditional c.unsigned (Stmt.unsignedList t) (Stmt.unsignedOption e)
  | .function ps b => .function ps (Stmt.unsignedList b)
  | .call f as => .call f.unsigned (Expr.unsignedList as)
termination_by structural e => e

def Expr.unsignedOption : Option Expr → Option Expr
  | none => none
  | some x => some x.unsigned
termination_by structural x => x

def Expr.unsignedList : List Expr → List Expr
  | [] => []
  | e :: es => e.unsigned :: Expr.unsignedList es
termination_by structural es => es

def Stmt.unsigned : Stmt → Stmt
  | .binding name x => .binding name x.unsigned
  | .ret x => .ret (Expr.unsignedOption x)
  | .expr x => .expr x.unsigned
  | .block b => .block (Stmt.unsignedList b)
termination_by structural s => s

def Stmt.unsignedList : List Stmt → List Stmt
  | [] => []
  | s :: ss => s.unsigned :: Stmt.unsignedList ss
termination_by structural ss => ss

def Stmt.unsignedOption : Option (List Stmt) → Option (List Stmt)
  | none => none
  | some b => some (Stmt.unsignedList b)
termination_by structural b => b
end

def Program.unsigned (program : Program) : Program :=
  Stmt.unsignedList program

theorem Expr.unsignedList_eq_map (es : List Expr) :
    Expr.unsignedList es = es.map Expr.unsigned := by
  induction es with
  | nil => rfl
  | cons e es ih => rw [Expr.unsignedList, ih, List.map_cons]

theorem Stmt.unsignedList_eq_map (ss : List Stmt) :
    Stmt.unsignedList ss = ss.map Stmt.unsigned := by
  induction ss with
  | nil => rfl
  | cons s ss ih => rw [Stmt.unsignedList, ih, List.map_cons]

section Text

theorem text_unsignedNumber (n : Int) : (unsignedNumber n).text = numberText n := by
  unfold unsignedNumber numberText
  by_cases hn : 0 ≤ n
  · rw [if_pos hn, if_pos hn]
    exact if_pos hn
  · rw [if_neg hn, if_neg hn]
    by_cases hm : maxInteger < -n
    · have ht : (Expr.number (some (maxInteger : Int))).text = maxInteger.repr :=
        text_number maxInteger
      have h1 : (Expr.number (some 1)).text = "1" := rfl
      have hs : TokenKind.minus.symbol = "-" := rfl
      rw [if_pos hm, if_pos hm]
      simp only [Expr.text, Expr.textOption] at ht h1 ⊢
      simp only [ht, h1, hs, ← String.toList_inj, String.toList_append, List.append_assoc]
      rfl
    · have ht : (Expr.number (some (-n))).text = (-n).repr := if_pos (by omega)
      rw [if_neg hm, if_neg hm]
      simp only [Expr.text, Expr.textOption] at ht ⊢
      rw [ht]
      rfl

theorem texts_unsigned {ss : List Stmt} (h : ∀ s ∈ ss, s.unsigned.text = s.text) :
    Stmt.texts (Stmt.unsignedList ss) = Stmt.texts ss := by
  rw [Stmt.unsignedList_eq_map, Stmt.texts_eq_map, Stmt.texts_eq_map, List.map_map]
  exact List.map_congr_left h

theorem text_unsigned :
    (∀ e : Expr, e.unsigned.text = e.text) ∧ ∀ s : Stmt, s.unsigned.text = s.text := by
  apply Tree.induct
  case name => exact fun text => rfl
  case number =>
    intro value
    cases value with
    | none => rfl
    | some n => exact text_unsignedNumber n
  case truth => exact fun b => rfl
  case unary =>
    intro op x hx
    cases x with
    | none => rfl
    | some e => simp only [Expr.unsigned, Expr.unsignedOption, Expr.text, Expr.textOption, hx e rfl]
  case binary =>
    intro op x y hx hy
    cases y with
    | none => simp only [Expr.unsigned, Expr.unsignedOption, Expr.text, hx]
    | some e =>
      simp only [Expr.unsigned, Expr.unsignedOption, Expr.text, Expr.textOption, hx, hy e rfl]
  case conditional =>
    intro c t e hc ht he
    cases e with
    | none => simp only [Expr.unsigned, Stmt.unsignedOption, Expr.text, hc, texts_unsigned ht]
    | some b =>
      simp only [Expr.unsigned, Stmt.unsignedOption, Expr.text, hc, texts_unsigned ht,
        texts_unsigned (he b rfl)]
  case function =>
    intro ps b hb
    simp only [Expr.unsigned, Expr.text, texts_unsigned hb]
  case call =>
    intro f as hf ha
    have has : Expr.texts (Expr.unsignedList as) = Expr.texts as := by
      rw [Expr.unsignedList_eq_map, Expr.texts_eq_map, Expr.texts_eq_map, List.map_map]
      exact List.map_congr_left ha
    simp only [Expr.unsigned, Expr.text, hf, has]
  case binding =>
    intro name x hx
    simp only [Stmt.unsigned, Stmt.text, hx]
  case ret =>
    intro x hx
    cases x with
    | none => rfl
    | some e => simp only [Stmt.unsigned, Expr.unsignedOption, Stmt.text, hx e rfl]
  case expr =>
    intro x hx
    simp only [Stmt.unsigned, Stmt.text, hx]
  case block =>
    intro b hb
    simp only [Stmt.unsigned, Stmt.text, texts_unsigned hb]

theorem textFault_unsignedNumber (n : Int) : (unsignedNumber n).textFault? = none := by
  unfold unsignedNumber
  split
  · rfl
  · split <;> rfl

theorem textFaults_unsigned {ss : List Stmt} (h : ∀ s ∈ ss, s.unsigned.textFault? = s.textFault?) :
    Stmt.textFaults? (Stmt.unsignedList ss) = Stmt.textFaults? ss := by
  induction ss with
  | nil => rfl
  | cons s ss ih =>
    rw [Stmt.unsignedList, Stmt.textFaults?, Stmt.textFaults?, h s (by simp),
      ih fun s' hs' => h s' (by simp [hs'])]

theorem textFaultOption_unsigned {x : Option Expr}
    (h : ∀ e ∈ x, e.unsigned.textFault? = e.textFault?) :
    Expr.textFaultOption? (Expr.unsignedOption x) = Expr.textFaultOption? x := by
  cases x with
  | none => rfl
  | some e => exact h e rfl

theorem textFault_unsigned :
    (∀ e : Expr, e.unsigned.textFault? = e.textFault?) ∧
      ∀ s : Stmt, s.unsigned.textFault? = s.textFault? := by
  apply Tree.induct
  case name => exact fun text => rfl
  case number =>
    intro value
    cases value with
    | none => rfl
    | some n => exact textFault_unsignedNumber n
  case truth => exact fun b => rfl
  case unary =>
    intro op x hx
    simp only [Expr.unsigned, Expr.textFault?, textFaultOption_unsigned hx]
  case binary =>
    intro op x y hx hy
    simp only [Expr.unsigned, Expr.textFault?, hx, textFaultOption_unsigned hy]
  case conditional =>
    intro c t e hc ht he
    have ht' := textFaults_unsigned ht
    cases e with
    | none => simp only [Expr.unsigned, Stmt.unsignedOption, Expr.textFault?, hc, ht']
    | some b =>
      have hb' := textFaults_unsigned (he b rfl)
      simp only [Expr.unsigned, Stmt.unsignedOption, Expr.textFault?, hc, ht', hb']
  case function =>
    intro ps b hb
    simp only [Expr.unsigned, Expr.textFault?, textFaults_unsigned hb]
  case call =>
    intro f as hf ha
    have has : Expr.textFaults? (Expr.unsignedList as) = Expr.textFaults? as := by
      induction as with
      | nil => rfl
      | cons a as ih =>
        rw [Expr.unsignedList, Expr.textFaults?, Expr.textFaults?, ha a (by simp),
          ih fun a' ha' => ha a' (by simp [ha'])]
    simp only [Expr.unsigned, Expr.textFault?, hf, has]
  case binding =>
    intro name x hx
    cases name with
    | none => rfl
    | some word => exact hx
  case ret => exact fun x hx => textFaultOption_unsigned hx
  case expr => exact fun x hx => hx
  case block => exact fun b hb => textFaults_unsigned hb

theorem Program.text_unsigned (program : Program) : program.unsigned.text = program.text :=
  congrArg (" ".intercalate ·) (texts_unsigned fun s _ => ExprLang.text_unsigned.2 s)

theorem Program.render_unsigned (program : Program) : program.unsigned.render = program.render := by
  have hf : Stmt.textFaults? program.unsigned = Stmt.textFaults? program :=
    textFaults_unsigned fun s _ => textFault_unsigned.2 s
  rw [render, render, hf, program.text_unsigned]

end Text

section Meaning
variable {fits : Int → Bool} {x y : Expr} {m n k : Int}

theorem Expr.StandsFor.outcome (hx : x.StandsFor fits (.number (some n))) {limits : Limits}
    (hf : limits.fits = fits) :
    UpToLevels limits.levels (x.eval limits) (.ok (some (.integer n))) :=
  hx limits { fits, levels := none } ⟨hf, rfl, fun m hm => by cases hm⟩

theorem upToLevels_bind_ok {α β : Type} {levels : Option Nat} {r : Except Fault α} {a : α}
    {f : α → Except Fault β} {outcome : Except Fault β} (hr : UpToLevels levels r (.ok a))
    (hf : UpToLevels levels (f a) outcome) : UpToLevels levels (r >>= f) outcome := by
  obtain rfl | ⟨hl, rfl⟩ := hr
  · exact hf
  · exact .inr ⟨hl, rfl⟩

theorem Expr.StandsFor.operand (hx : x.StandsFor fits (.number (some n))) {limits : Limits}
    (hf : limits.fits = fits) (op : TokenKind) :
    UpToLevels limits.levels (Expr.evalOperand op (some x) limits) (.ok (.integer n)) :=
  upToLevels_bind_ok (hx.outcome hf) (upToLevels_refl _)

theorem standsFor_negation (hx : x.StandsFor fits (.number (some m))) (hn : -m = n)
    (hf : fits n = true) : (Expr.unary .minus (some x)).StandsFor fits (.number (some n)) := by
  subst hn
  intro limits wider hl
  apply upToLevels_enter hl
  intro inner _ hi
  apply upToLevels_bind_ok (hx.operand hi.fits_eq .minus)
  have ha : applyUnary inner.fits .minus (.integer m) = .ok (.integer (-m)) := by
    rw [hi.fits_eq]
    exact if_pos hf
  rw [ha]
  exact upToLevels_refl _

theorem standsFor_difference (hx : x.StandsFor fits (.number (some m)))
    (hy : y.StandsFor fits (.number (some k))) (hn : m - k = n) (hf : fits n = true) :
    (Expr.binary .minus x (some y)).StandsFor fits (.number (some n)) := by
  subst hn
  intro limits wider hl
  apply upToLevels_enter hl
  intro inner _ hi
  apply upToLevels_bind_ok (hx.outcome hi.fits_eq)
  apply upToLevels_bind_ok (hy.operand hi.fits_eq .minus)
  have ha : applyBinary inner.fits .minus (.integer m) (.integer k) = .ok (.integer (m - k)) := by
    rw [hi.fits_eq]
    exact if_pos hf
  rw [ha]
  exact upToLevels_refl _

theorem standsFor_unsignedNumber (hn : inRange n = true) :
    (unsignedNumber n).StandsFor inRange (.number (some n)) := by
  have hr := inRange_iff.mp hn
  unfold unsignedNumber
  split
  · exact standsFor_refl.1 _
  · rename_i hneg
    split
    · -- Only the smallest integer is left.
      obtain rfl : n = -(maxInteger + 1) := by omega
      have hl : inRange (-maxInteger) = true := by decide
      have hm := standsFor_negation (standsFor_refl.1 (.number (some (maxInteger : Int)))) rfl hl
      exact standsFor_difference hm (standsFor_refl.1 _) (by omega) hn
    · exact standsFor_negation (standsFor_refl.1 _) (by omega) hn

theorem wellFormed_unsignedNumber (hn : inRange n = true) : (unsignedNumber n).WellFormed := by
  have hr := inRange_iff.mp hn
  unfold unsignedNumber
  split
  · rename_i hpos
    exact .number hpos hr.2
  · split
    · have hm : (Expr.number (some (maxInteger : Int))).WellFormed := .number (by omega) (by omega)
      exact .binary (l := .sum) rfl (.unary rfl hm) (.number (by decide) (by decide))
    · exact .unary rfl (.number (by omega) (by omega))

theorem wellFormed_unsignedList {ss : List Stmt} (h : ∀ s ∈ ss, s.unsigned.WellFormed) :
    ∀ s ∈ Stmt.unsignedList ss, s.WellFormed := by
  rw [Stmt.unsignedList_eq_map]
  exact List.forall_mem_map.mpr h

theorem standsFor_unsignedList {ss : List Stmt} (h : ∀ s ∈ ss, s.unsigned.StandsFor fits s) :
    List.Forall₂ (Stmt.StandsFor fits) (Stmt.unsignedList ss) ss := by
  rw [Stmt.unsignedList_eq_map]
  exact List.forall₂_map_left_iff.mpr (List.forall₂_same.mpr h)

theorem listStandsFor_unsigned {ss : List Stmt} (h : ∀ s ∈ ss, s.unsigned.StandsFor fits s) :
    Stmt.ListStandsFor fits (Stmt.unsignedList ss) ss :=
  listStandsFor_of_forall₂ (standsFor_unsignedList h)

mutual
theorem Expr.Complete.unsigned_wellFormed :
    {e : Expr} → e.Complete .signed → e.unsigned.WellFormed
  | _, .name hw => .name hw
  | _, .number hn => wellFormed_unsignedNumber hn
  | _, .truth b => .truth b
  | _, .unary hop hx => .unary hop hx.unsigned_wellFormed
  | _, .binary hop hx hy => .binary hop hx.unsigned_wellFormed hy.unsigned_wellFormed
  | _, .conditional (e := none) hc hb _ =>
    .conditional hc.unsigned_wellFormed
      (wellFormed_unsignedList fun s hs => (hb s hs).unsigned_wellFormed) nofun
  | _, .conditional (e := some b) hc hb he => by
    apply Expr.WellFormed.conditional hc.unsigned_wellFormed
    · exact wellFormed_unsignedList fun s hs => (hb s hs).unsigned_wellFormed
    · intro b' hb'
      obtain rfl := Option.some.inj hb'
      exact wellFormed_unsignedList fun s hs => (he b rfl s hs).unsigned_wellFormed
  | _, .function hp hb =>
    .function hp (wellFormed_unsignedList fun s hs => (hb s hs).unsigned_wellFormed)
  | _, .call hf ha => by
    apply Expr.WellFormed.call hf.unsigned_wellFormed
    rw [Expr.unsignedList_eq_map]
    exact List.forall_mem_map.mpr fun a has => (ha a has).unsigned_wellFormed

theorem Stmt.Complete.unsigned_wellFormed :
    {s : Stmt} → s.Complete .signed → s.unsigned.WellFormed
  | _, .binding hw hx => .binding hw hx.unsigned_wellFormed
  | _, .bareReturn => .bareReturn
  | _, .valueReturn hx => .valueReturn hx.unsigned_wellFormed
  | _, .expr hx => .expr hx.unsigned_wellFormed
  | _, .block hb => .block (wellFormed_unsignedList fun s hs => (hb s hs).unsigned_wellFormed)
end

mutual
theorem Expr.Complete.unsigned_standsFor :
    {e : Expr} → e.Complete .signed → e.unsigned.StandsFor inRange e
  | _, .name _ | _, .truth _ => standsFor_refl.1 _
  | _, .number hn => standsFor_unsignedNumber hn
  | _, .unary _ hx => standsFor_unary (.some hx.unsigned_standsFor)
  | _, .binary _ hx hy => standsFor_binary hx.unsigned_standsFor (.some hy.unsigned_standsFor)
  | _, .conditional (e := none) hc hb _ => standsFor_conditional hc.unsigned_standsFor
      (listStandsFor_unsigned fun s hs => (hb s hs).unsigned_standsFor) .none
  | _, .conditional (e := some b) hc hb he => standsFor_conditional hc.unsigned_standsFor
      (listStandsFor_unsigned fun s hs => (hb s hs).unsigned_standsFor)
      (.some (listStandsFor_unsigned fun s hs => (he b rfl s hs).unsigned_standsFor))
  | _, .function _ _ => standsFor_atom (fun _ => rfl) fun _ => rfl
  | _, .call hf _ => standsFor_call hf.unsigned_standsFor _ _

theorem Stmt.Complete.unsigned_standsFor :
    {s : Stmt} → s.Complete .signed → s.unsigned.StandsFor inRange s
  | _, .binding _ _ | _, .bareReturn | _, .valueReturn _ => fun _ _ _ => upToLevels_refl _
  | _, .expr hx => hx.unsigned_standsFor
  | _, .block hb =>
    standsFor_block (listStandsFor_unsigned fun s hs => (hb s hs).unsigned_standsFor)
end

end Meaning

theorem reads_of_spells {d : Derivation .statements} (hb : d.Bounded) {text : String}
    (hs : Spells text.toList d.tokens) :
    (Program.ofText text = .ok d.tree ∨
      Program.ofText text = .error (.problem .nestingTooDeepToParse)) ∧
      ∀ levels, d.tokens.length < levels →
        ((programWithin levels).run (.ofText text)).1 = .ok d.tree := by
  have hf : (TokenStream.ofText text).source.fault = none := by
    simp only [TokenStream.ofText, Source.ofText, hs.over]
  have hp : (TokenStream.ofText text).pending =
      (Derivation.program d (.sample .endOfInput)).tokens := by
    simp only [TokenStream.pending, TokenStream.ofText, Source.ofText, hs.over]
    rfl
  have hr (levels : Nat) := run_of_derivation levels (.program d (.sample .endOfInput)) hb hf hp
  constructor
  · exact (hr maxLevels).imp_right And.right
  · intro levels hl
    rcases hr levels with hok | ⟨hlt, _⟩
    · exact hok
    · simp only [Derivation.tokens, List.length_append, List.length_cons, List.length_nil] at hlt
      omega

theorem Program.reads_text {program : Program} (h : ∀ s ∈ program, s.WellFormed) :
    (Program.ofText program.text = .ok program ∨
      Program.ofText program.text = .error (.problem .nestingTooDeepToParse)) ∧
      ∀ levels, program.text.length < levels →
        ((programWithin levels).run (.ofText program.text)).1 = .ok program := by
  obtain ⟨d, hb, rfl, hs⟩ := Program.exists_derivation h
  obtain ⟨ho, hl⟩ := reads_of_spells hb hs
  refine ⟨ho, ?_⟩
  intro levels hlt
  have hlen := hs.length_le
  rw [String.length_toList] at hlen
  exact hl levels (Nat.lt_of_le_of_lt hlen hlt)

end ExprLang
