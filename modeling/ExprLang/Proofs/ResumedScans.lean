import Mathlib.Logic.Function.Iterate
import ExprLang.Proofs.LexicalGrammar

/-!
Resumed scans. Scanning again and again, whatever the results, gives one sequence of items for each
text, which goes on after a fault right behind what is at fault and comes to the end of the input.
The steps of iterators over one lexer, however they follow one another, consume it in order.
-/

namespace ExprLang

open Text

/-- Characters that make no token, with what stands behind them. -/
inductive Misfit : List Char → List Char → Fault → Prop where
  | character {c : Char} {behind : List Char} (hb : isBlank c = false) (hh : c ≠ '#')
      (hd : isDigit c = false) (hw : startsWord c = false) (hk : singleKind? c = none) :
      Misfit [c] behind (.problem (.unexpectedCharacter (.singleton c)))
  | outOfRange {ds behind : List Char} (hne : ds ≠ []) (hd : ∀ c ∈ ds, isDigit c = true)
      (hs : ∀ c ∈ behind.head?, isDigit c = false) (hl : ds.length ≤ maxDigits)
      (hn : maxInteger < Nat.ofDigitChars 10 ds 0) :
      Misfit ds behind (.problem (.integerOutOfRange (.ofList ds)))
  | tooLong {ds behind : List Char} (hd : ∀ c ∈ ds, isDigit c = true)
      (hs : ∀ c ∈ behind.head?, isDigit c = false) (hl : maxDigits < ds.length) :
      Misfit ds behind .numberTooLong

section
variable {text rest cs : List Char} {c : Char} {fault : Fault} {t : Token}

theorem apart_of_dropTrivia {inComment : Bool} (h : dropTrivia inComment text = c :: cs) :
    isBlank c = false ∧ c ≠ '#' := by
  fun_induction dropTrivia inComment text with
  | case1 => cases h
  | case2 _ _ ih => exact ih h
  | case3 _ _ _ ih => exact ih h
  | case4 _ _ ih => exact ih h
  | case5 d ds hb hh =>
    obtain ⟨rfl, rfl⟩ := List.cons.inj h
    exact ⟨Bool.eq_false_iff.mpr hb, hh⟩

theorem scanFrom_suffix (c : Char) (cs : List Char) : (scanFrom c cs).2 <:+ cs := by
  unfold scanFrom
  split
  · exact List.dropWhile_suffix _
  · split
    · exact List.dropWhile_suffix _
    · split
      · exact List.suffix_refl _
      · split
        · exact List.suffix_cons _ _
        · exact List.suffix_refl _

theorem suffix_scan (text : List Char) : (scan text).2 <:+ text := by
  unfold scan
  split
  · exact List.nil_suffix
  · rename_i c cs hc
    have hd := hc ▸ dropTrivia_suffix false text
    exact (scanFrom_suffix c cs).trans ((List.suffix_cons c cs).trans hd)

theorem misfit_of_numberToken {ds behind : List Char} (hne : ds ≠ [])
    (hd : ∀ c ∈ ds, isDigit c = true) (hs : ∀ c ∈ behind.head?, isDigit c = false)
    (h : numberToken ds = .error fault) : Misfit ds behind fault := by
  unfold numberToken at h
  split at h
  · rename_i hl
    obtain rfl := Except.error.inj h
    exact .tooLong hd hs hl
  · rename_i hl
    dsimp only at h
    split at h
    · rename_i hn
      obtain rfl := Except.error.inj h
      exact .outOfRange hne hd hs (Nat.le_of_not_lt hl) hn
    · cases h

theorem misfit_of_singleToken {behind : List Char} (hb : isBlank c = false) (hh : c ≠ '#')
    (hd : isDigit c = false) (hw : startsWord c = false) (h : singleToken c = .error fault) :
    Misfit [c] behind fault := by
  unfold singleToken at h
  dsimp only at h
  split at h
  · cases h
  · rename_i hk
    obtain rfl := Except.error.inj h
    exact .character hb hh hd hw hk

theorem misfit_of_scanFrom (hb : isBlank c = false) (hh : c ≠ '#')
    (h : scanFrom c cs = (.error fault, rest)) :
    ∃ w, Misfit w rest fault ∧ c :: cs = w ++ rest := by
  unfold scanFrom at h
  split at h
  · rename_i hc
    obtain ⟨hn, rfl⟩ := Prod.mk.inj h
    refine ⟨c :: cs.takeWhile isDigit, ?_, ?_⟩
    · apply misfit_of_numberToken (by simp) (of_mem_cons_takeWhile hc cs) _ hn
      exact breaks_of_dropWhile
    · rw [List.cons_append, List.takeWhile_append_dropWhile]
  · rename_i hd
    split at h
    · cases (Prod.mk.inj h).1
    · rename_i hw
      rw [Bool.not_eq_true] at hd hw
      split at h
      · obtain ⟨hs, rfl⟩ := Prod.mk.inj h
        exact ⟨[c], misfit_of_singleToken hb hh hd hw hs, rfl⟩
      · split at h
        · cases (Prod.mk.inj h).1
        · obtain ⟨hs, rfl⟩ := Prod.mk.inj h
          exact ⟨[c], misfit_of_singleToken hb hh hd hw hs, rfl⟩

/-- A fault is met right behind the characters that are at fault. -/
theorem misfit_of_scan (h : scan text = (.error fault, rest)) :
    ∃ front w, Misfit w rest fault ∧ text = front ++ (w ++ rest) := by
  unfold scan at h
  split at h
  · cases (Prod.mk.inj h).1
  · rename_i c cs hc
    obtain ⟨hb, hh⟩ := apart_of_dropTrivia hc
    obtain ⟨w, hm, hw⟩ := misfit_of_scanFrom hb hh h
    obtain ⟨front, hf⟩ := dropTrivia_suffix false text
    refine ⟨front, w, hm, ?_⟩
    rw [← hw, ← hc, hf]

theorem nil_of_scan (h : scan text = (.ok t, rest)) (ht : t.kind = .endOfInput) :
    t = .endOfInput ∧ rest = [] := by
  obtain ⟨rfl, hg⟩ | ⟨p, _, _, hw, _⟩ := cut_of_scan h
  · exact ⟨rfl, (Prod.mk.inj (h.symm.trans (scan_last hg))).2⟩
  · exact absurd ht hw.lexeme.kind_ne_endOfInput

end

namespace Lexer

variable {lexer : Lexer} {text : List Char}

/-- The lexer after so many more items, faults among them. -/
def after (lexer : Lexer) (n : Nat) : Lexer :=
  (fun lexer : Lexer => lexer.next.2)^[n] lexer

/-- The item that a lexer comes to after so many others. -/
def item (lexer : Lexer) (n : Nat) : Except Fault Token :=
  (lexer.after n).next.1

theorem after_succ (lexer : Lexer) (n : Nat) : lexer.after (n + 1) = (lexer.after n).next.2 :=
  Function.iterate_succ_apply' ..

theorem after_next (lexer : Lexer) (n : Nat) : lexer.next.2.after n = lexer.after (n + 1) :=
  (Function.iterate_succ_apply ..).symm

theorem after_after (lexer : Lexer) (m n : Nat) :
    (lexer.after m).after n = lexer.after (m + n) := by
  rw [Nat.add_comm]
  exact (Function.iterate_add_apply ..).symm

theorem item_after (lexer : Lexer) (m n : Nat) : (lexer.after m).item n = lexer.item (m + n) := by
  rw [item, after_after, item]

theorem item_next (lexer : Lexer) (n : Nat) : lexer.next.2.item n = lexer.item (n + 1) := by
  rw [item, after_next, item]

/-- The lexer stands in the text, and what lies ahead is the text from there on. -/
structure In (text : List Char) (lexer : Lexer) : Prop where
  position_le : lexer.position ≤ text.length
  rest_eq : lexer.rest = text.drop lexer.position

theorem In.length_rest (h : lexer.In text) :
    lexer.position + lexer.rest.length = text.length := by
  have hp := h.position_le
  rw [h.rest_eq, List.length_drop]
  omega

theorem In.moveTo (h : lexer.In text) {rest : List Char} (hs : rest <:+ lexer.rest) :
    (lexer.moveTo rest).In text := by
  have hl := h.length_rest
  have hle := hs.length_le
  obtain ⟨passed, hp⟩ := hs
  constructor
  · dsimp only [Lexer.moveTo]
    omega
  · have hn : lexer.rest.length - rest.length = passed.length := by
      rw [← hp, List.length_append]
      omega
    dsimp only [Lexer.moveTo]
    rw [hn, ← List.drop_drop, ← h.rest_eq, ← hp, List.drop_left]

theorem In.next (h : lexer.In text) : lexer.next.2.In text :=
  h.moveTo (suffix_scan lexer.rest)

theorem In.after (h : lexer.In text) (n : Nat) : (lexer.after n).In text := by
  induction n with
  | zero => exact h
  | succ n ih =>
    rw [after_succ]
    exact ih.next

theorem in_ofText (text : String) : (ofText text).In text.toList :=
  ⟨Nat.zero_le _, rfl⟩

theorem position_le_next (lexer : Lexer) : lexer.position ≤ lexer.next.2.position :=
  Nat.le_add_right ..

theorem length_rest_next (h : lexer.next.1 ≠ .ok .endOfInput) :
    lexer.next.2.rest.length < lexer.rest.length :=
  length_lt_of_scan (Prod.ext rfl rfl) h

theorem position_lt_next (h : lexer.next.1 ≠ .ok .endOfInput) :
    lexer.position < lexer.next.2.position := by
  have hl := length_rest_next h
  change lexer.position < lexer.position + (lexer.rest.length - lexer.next.2.rest.length)
  omega

/-- Right in front of the lexer stands what the fault is about. -/
def StandsBehind (text : List Char) (lexer : Lexer) (fault : Fault) : Prop :=
  ∃ front w, text = front ++ (w ++ lexer.rest) ∧ Misfit w lexer.rest fault ∧
    lexer.position = front.length + w.length

theorem In.standsBehind (h : lexer.In text) {fault : Fault} (hf : lexer.next.1 = .error fault) :
    lexer.next.2.StandsBehind text fault := by
  obtain ⟨front, w, hm, hr⟩ := misfit_of_scan (Prod.ext hf rfl)
  have htext : text = (text.take lexer.position ++ front) ++ (w ++ lexer.next.2.rest) := by
    have ht := List.take_append_drop lexer.position text
    rw [← h.rest_eq, hr, ← List.append_assoc] at ht
    exact ht.symm
  refine ⟨_, w, htext, hm, ?_⟩
  have hl := h.next.length_rest
  have hlt := congrArg List.length htext
  simp only [List.length_append] at hlt ⊢
  omega

theorem next_of_rest (h : lexer.rest = []) : lexer.next = (.ok .endOfInput, lexer) := by
  obtain ⟨rest, position⟩ := lexer
  obtain rfl : rest = [] := h
  rfl

theorem rest_of_end {t : Token} (h : lexer.next.1 = .ok t) (ht : t.kind = .endOfInput) :
    t = .endOfInput ∧ lexer.next.2.rest = [] :=
  nil_of_scan (Prod.ext h rfl) ht

theorem after_of_rest (h : lexer.rest = []) (n : Nat) : lexer.after n = lexer := by
  induction n with
  | zero => rfl
  | succ n ih => rw [after_succ, ih, next_of_rest h]

theorem exists_end (lexer : Lexer) :
    ∃ k ≤ lexer.rest.length, (∀ n < k, lexer.item n ≠ .ok .endOfInput) ∧
      lexer.item k = .ok .endOfInput := by
  induction hl : lexer.rest.length using Nat.strongRecOn generalizing lexer with
  | ind m ih =>
    by_cases he : lexer.next.1 = .ok .endOfInput
    · exact ⟨0, Nat.zero_le _, nofun, he⟩
    · have hlt := length_rest_next he
      obtain ⟨k, hk, hb, hi⟩ := ih _ (hl ▸ hlt) lexer.next.2 rfl
      refine ⟨k + 1, by omega, ?_, item_next lexer k ▸ hi⟩
      intro n hn
      cases n with
      | zero => exact he
      | succ n =>
        rw [← item_next]
        exact hb n (by omega)

/-- The end of the input is the last item, again and again. -/
theorem rest_of_item_end {k n : Nat} (h : lexer.item k = .ok .endOfInput) (hn : k < n) :
    (lexer.after n).rest = [] := by
  obtain ⟨m, rfl⟩ := Nat.exists_eq_add_of_lt hn
  have hr : (lexer.after (k + 1)).rest = [] := by
    rw [after_succ]
    exact (rest_of_end h rfl).2
  rw [Nat.add_right_comm, ← after_after, after_of_rest hr, hr]

theorem item_end_of_le {k n : Nat} (h : lexer.item k = .ok .endOfInput) (hn : k ≤ n) :
    lexer.item n = .ok .endOfInput := by
  obtain rfl | hlt := Nat.eq_or_lt_of_le hn
  · exact h
  · rw [item, next_of_rest (rest_of_item_end h hlt)]

theorem In.position_of_rest (h : lexer.In text) (hr : lexer.rest = []) :
    lexer.position = text.length := by
  have hl := h.length_rest
  rw [hr, List.length_nil] at hl
  omega

/-- So many items, from one of them on. -/
def items (lexer : Lexer) (n count : Nat) : List (Except Fault Token) :=
  (List.range count).map fun k => lexer.item (n + k)

theorem items_succ (lexer : Lexer) (n count : Nat) :
    lexer.items n (count + 1) = lexer.item n :: lexer.items (n + 1) count := by
  simp only [items, List.range_succ_eq_map, List.map_cons, List.map_map, Nat.add_zero]
  congr 2
  funext k
  simp only [Function.comp_apply]
  congr 1
  omega

theorem items_after (lexer : Lexer) (m n count : Nat) :
    (lexer.after m).items n count = lexer.items (m + n) count := by
  simp only [items, item_after, Nat.add_assoc]

theorem items_next (lexer : Lexer) (n count : Nat) :
    lexer.next.2.items n count = lexer.items (n + 1) count := by
  have ha := items_after lexer 1 n count
  rwa [Nat.add_comm 1 n] at ha

theorem moveTo_moveTo {rest rest' : List Char} (h : rest.length ≤ lexer.rest.length)
    (h' : rest'.length ≤ rest.length) : (lexer.moveTo rest).moveTo rest' = lexer.moveTo rest' := by
  simp only [Lexer.moveTo, Lexer.mk.injEq, true_and]
  omega

/-- What a pass consumes: the items up to the first end or fault. -/
inductive Passes (lexer : Lexer) : Pass → Prop where
  | ended {pass : Pass} (hf : pass.fault = none) (hts : Finished pass.tokens)
      (hi : lexer.items 0 pass.tokens.length = pass.tokens.map .ok)
      (hr : lexer.moveTo pass.rest = lexer.after pass.tokens.length) : Passes lexer pass
  | cut {pass : Pass} {fault : Fault} (hf : pass.fault = some fault)
      (hts : ∀ t ∈ pass.tokens, t.kind ≠ .endOfInput)
      (hi : lexer.items 0 (pass.tokens.length + 1) = pass.tokens.map .ok ++ [.error fault])
      (hr : lexer.moveTo pass.rest = lexer.after (pass.tokens.length + 1)) : Passes lexer pass

theorem length_rest_over_le (text : List Char) : (Pass.over text).rest.length ≤ text.length := by
  fun_induction Pass.over text with
  | case1 text fault rest h => simpa only [h] using length_scan_le text
  | case2 text t rest h ht => simpa only [h] using length_scan_le text
  | case3 text t rest h ht hlt later ih => exact Nat.le_trans ih (Nat.le_of_lt hlt)

theorem passes_over (lexer : Lexer) : lexer.Passes (Pass.over lexer.rest) := by
  generalize ht : lexer.rest = text
  fun_induction Pass.over text generalizing lexer with
  | case1 text fault rest h =>
    subst ht
    have hn : lexer.next = (.error fault, lexer.moveTo rest) := by
      rw [Lexer.next, h]
    apply Passes.cut rfl (by simp)
    · simp [item, after, hn, items]
    · exact (congrArg Prod.snd hn).symm
  | case2 text t rest h hk =>
    subst ht
    have hn : lexer.next = (.ok t, lexer.moveTo rest) := by
      rw [Lexer.next, h]
    apply Passes.ended rfl ⟨[], ⟨t, decide_eq_true hk⟩, rfl, by simp⟩
    · simp [item, after, hn, items]
    · exact (congrArg Prod.snd hn).symm
  | case3 text t rest h hk hlt later ih =>
    subst ht
    have hn : lexer.next = (.ok t, lexer.moveTo rest) := by
      rw [Lexer.next, h]
    have hi (count : Nat) :
        lexer.items 0 (count + 1) = .ok t :: (lexer.moveTo rest).items 0 count := by
      have hl := items_next lexer 0 count
      rw [hn] at hl
      rw [items_succ, ← hl, item]
      exact congrArg (· :: _) (congrArg Prod.fst hn)
    have hm (count : Nat) : (lexer.moveTo rest).after count = lexer.after (count + 1) := by
      have ha := after_next lexer count
      rwa [hn] at ha
    have hr : (lexer.moveTo rest).moveTo later.rest = lexer.moveTo later.rest :=
      moveTo_moveTo (Nat.le_of_lt hlt) (length_rest_over_le rest)
    cases ih (lexer.moveTo rest) rfl with
    | ended hf hts his hrs =>
      obtain ⟨body, finish, hbody, hb⟩ := hts
      refine .ended hf ?_ ?_ ?_
      · refine ⟨t :: body, finish, congrArg (t :: ·) hbody, ?_⟩
        exact List.forall_mem_cons.mpr ⟨hk, hb⟩
      · exact (hi _).trans (congrArg (.ok t :: ·) his)
      · exact hr.symm.trans (hrs.trans (hm _))
    | cut hf hts his hrs =>
      refine .cut hf ?_ ?_ ?_
      · exact List.forall_mem_cons.mpr ⟨hk, hts⟩
      · exact (hi _).trans (congrArg (.ok t :: ·) his)
      · exact hr.symm.trans (hrs.trans (hm _))

end Lexer

/-- A lexer and iterators over it, each of them live until it meets the end or a fault. -/
structure Readers where
  lexer : Lexer
  live : Nat → Bool

namespace Readers

open LexerSession

def step (readers : Readers) (i : Nat) (s : Step) : Reply × Readers :=
  let (reply, session) := LexerSession.step { readers with live := readers.live i } s
  (reply, { session with live := Function.update readers.live i session.live })

/-- The replies to steps of iterators, each with the position behind it. -/
def run (readers : Readers) : List (Nat × Step) → List (Reply × Nat)
  | [] => []
  | (i, s) :: steps =>
    let (reply, later) := readers.step i s
    (reply, later.lexer.position) :: later.run steps

/-- A step of an iterator that is live or not, its reply and whether the iterator is live then. The
items are consumed from one on, up to another. -/
inductive Answers (start : Lexer) : Bool → Nat → Step → Reply → Bool → Nat → Prop where
  | token {n : Nat} {t : Token} (h : start.item n = .ok t) :
      Answers start true n .next (.token t) (t.kind ≠ .endOfInput) (n + 1)
  | fault {n : Nat} {fault : Fault} (h : start.item n = .error fault) :
      Answers start true n .next (.fault fault) false (n + 1)
  | finished {n : Nat} : Answers start false n .next .finished false n
  | restarted {n : Nat} {live : Bool} : Answers start live n .restart .restarted true n
  | tokens {n : Nat} {live : Bool} {ts : List Token} (hts : Finished ts)
      (h : start.items n ts.length = ts.map .ok) :
      Answers start live n .tokenize (.tokens ts) live (n + ts.length)
  | cut {n : Nat} {live : Bool} {ts : List Token} {fault : Fault}
      (hts : ∀ t ∈ ts, t.kind ≠ .endOfInput)
      (h : start.items n (ts.length + 1) = ts.map .ok ++ [.error fault]) :
      Answers start live n .tokenize (.fault fault) live (n + (ts.length + 1))

/-- Steps of iterators and the replies to them, from one item on. -/
inductive Consumes (start : Lexer) :
    (Nat → Bool) → Nat → List (Nat × Step) → List (Reply × Nat) → Prop where
  | nil {live : Nat → Bool} {n : Nat} : Consumes start live n [] []
  | cons {live : Nat → Bool} {n m i : Nat} {s : Step} {reply : Reply} {live' : Bool}
      {steps : List (Nat × Step)} {answers : List (Reply × Nat)}
      (h : Answers start (live i) n s reply live' m)
      (hs : Consumes start (Function.update live i live') m steps answers) :
      Consumes start live n ((i, s) :: steps) ((reply, (start.after m).position) :: answers)

theorem answers_step (start : Lexer) (live : Bool) (n : Nat) (s : Step) :
    ∃ reply live' m, Answers start live n s reply live' m ∧
      LexerSession.step { lexer := start.after n, live } s =
        (reply, { lexer := start.after m, live := live' }) := by
  cases s with
  | next =>
    cases live with
    | false => exact ⟨_, _, _, .finished, rfl⟩
    | true =>
      cases hn : (start.after n).next with
      | mk result lexer =>
        have hi : start.item n = result := congrArg Prod.fst hn
        have ha : start.after (n + 1) = lexer := by
          rw [Lexer.after_succ, hn]
        cases result with
        | ok t => exact ⟨_, _, _, .token hi, by simp [LexerSession.step, hn, ha]⟩
        | error fault => exact ⟨_, _, _, .fault hi, by simp [LexerSession.step, hn, ha]⟩
  | restart => exact ⟨_, _, _, .restarted, rfl⟩
  | tokenize =>
    cases Lexer.passes_over (start.after n) with
    | ended hf hts hi hr =>
      rw [Lexer.items_after] at hi
      rw [Lexer.after_after] at hr
      refine ⟨_, _, _, .tokens hts hi, ?_⟩
      simp only [LexerSession.step, Lexer.tokenize, Pass.result, hf, hr]
    | cut hf hts hi hr =>
      rw [Lexer.items_after] at hi
      rw [Lexer.after_after] at hr
      refine ⟨_, _, _, .cut hts hi, ?_⟩
      simp only [LexerSession.step, Lexer.tokenize, Pass.result, hf, hr]

theorem consumes_run (start : Lexer) (live : Nat → Bool) (n : Nat) (steps : List (Nat × Step)) :
    Consumes start live n steps (run { lexer := start.after n, live } steps) := by
  induction steps generalizing live n with
  | nil => exact .nil
  | cons first steps ih =>
    obtain ⟨i, s⟩ := first
    obtain ⟨reply, live', m, ha, hs⟩ := answers_step start (live i) n s
    have hc := Consumes.cons ha (ih (Function.update live i live') m)
    simpa only [run, step, hs] using hc

end Readers

/-- Scanning a text again and again moves on with each item, stands behind what is at fault after a
fault, and comes to the end of the input and stays there. All steps of iterators over the lexer
consume these items in their order. -/
theorem scans_resume (text : String) :
    let start := Lexer.ofText text
    (∀ n, (start.after n).position ≤ (start.after (n + 1)).position ∧
      (start.after n).position ≤ text.length ∧
      (start.after n).rest = text.toList.drop (start.after n).position ∧
      (start.item n ≠ .ok .endOfInput →
        (start.after n).position < (start.after (n + 1)).position) ∧
      ∀ fault, start.item n = .error fault →
        (start.after (n + 1)).StandsBehind text.toList fault) ∧
    (∃ k ≤ text.length, (∀ n < k, start.item n ≠ .ok .endOfInput) ∧
      ∀ n ≥ k, start.item n = .ok .endOfInput ∧ (start.after (n + 1)).position = text.length) ∧
    ∀ live steps,
      Readers.Consumes start live 0 steps (Readers.run { lexer := start, live } steps) := by
  intro start
  have hin : start.In text.toList := Lexer.in_ofText text
  refine ⟨?_, ?_, ?_⟩
  · intro n
    have hn := hin.after n
    rw [Lexer.after_succ]
    refine ⟨Lexer.position_le_next _, hn.position_le, hn.rest_eq, Lexer.position_lt_next, ?_⟩
    exact fun fault hf => hn.standsBehind hf
  · obtain ⟨k, hk, hb, he⟩ := Lexer.exists_end start
    refine ⟨k, hk, hb, ?_⟩
    intro n hn
    refine ⟨Lexer.item_end_of_le he hn, ?_⟩
    exact (hin.after (n + 1)).position_of_rest (Lexer.rest_of_item_end he (Nat.lt_succ_of_le hn))
  · intro live steps
    exact Readers.consumes_run start live 0 steps

example :
    Readers.run { lexer := .ofText "a @ 1", live := fun _ => true }
        [(0, .next), (1, .next), (1, .next), (0, .next), (0, .next)] =
      [(.token (nameToken "a"), 1),
        (.fault (.problem (.unexpectedCharacter "@")), 3),
        (.finished, 3),
        (.token { kind := .number, payload := .number 1, lexeme := "1" }, 5),
        (.token .endOfInput, 5)] := by
  rfl

end ExprLang
