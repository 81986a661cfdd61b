import Mathlib.Logic.Function.Iterate
import ExprLang.Proofs.LazyReading

/-!
A stream of tokens is a cursor over them. Whatever calls are made, it replies as the cursor does. It
has pulled the tokens that the cursor has passed and at most one more, nothing behind the end of the
input, and nothing at all before the first call. After a fault there is nothing left.
-/

namespace ExprLang

namespace TokenStream

inductive Call where
  | peek | advance
deriving DecidableEq

def call (s : TokenStream) : Call → Except Fault Token × TokenStream
  | .peek => s.peek
  | .advance => s.advance

def replies (s : TokenStream) : List Call → List (Except Fault Token)
  | [] => []
  | c :: calls => (s.call c).1 :: (s.call c).2.replies calls

def after (s : TokenStream) : List Call → TokenStream
  | [] => s
  | c :: calls => (s.call c).2.after calls

end TokenStream

open TokenStream (Call)

/-- A place in a sequence of tokens. A fault may stand behind the last of them. -/
structure Cursor where
  tokens : List Token
  fault : Option Fault
  position : Nat := 0

namespace Cursor

/-- The token at the cursor, which moves on when the token is taken, but not over the end of the
input. Behind the tokens the cursor stays, and the fault there is met once. -/
def call (cursor : Cursor) (c : Call) : Except Fault Token × Cursor :=
  match cursor.tokens[cursor.position]? with
  | some token =>
    if c = .advance ∧ token.kind ≠ .endOfInput then
      (.ok token, { cursor with position := cursor.position + 1 })
    else (.ok token, cursor)
  | none => (.error (cursor.fault.getD .endMissing), { cursor with fault := none })

def replies (cursor : Cursor) : List Call → List (Except Fault Token)
  | [] => []
  | c :: calls => (cursor.call c).1 :: (cursor.call c).2.replies calls

def after (cursor : Cursor) : List Call → Cursor
  | [] => cursor
  | c :: calls => (cursor.call c).2.after calls

/-- The end of the input is not behind the cursor. -/
def Within (cursor : Cursor) : Prop :=
  ∀ i token, cursor.tokens[i]? = some token → token.kind = .endOfInput → cursor.position ≤ i

theorem Within.call {cursor : Cursor} (h : cursor.Within) (c : Call) :
    (cursor.call c).2.Within := by
  unfold Cursor.call
  split
  · rename_i token ht
    split
    · rename_i hc
      intro i u hu hk
      have hp : cursor.position ≤ i := h i u hu hk
      have hne : cursor.position ≠ i := by
        rintro rfl
        obtain rfl := Option.some.inj (ht.symm.trans hu)
        exact hc.2 hk
      exact Nat.lt_of_le_of_ne hp hne
    · exact h
  · exact h

end Cursor

namespace Source

/-- What is left to pull after so many pulls. -/
def after (source : Source) (n : Nat) : Source :=
  (fun source : Source => source.pull.2)^[n] source

theorem after_succ (source : Source) (n : Nat) :
    source.after (n + 1) = (source.after n).pull.2 :=
  Function.iterate_succ_apply' ..

theorem after_eq {source : Source} {n : Nat} (h : n ≤ source.tokens.length) :
    source.after n = ⟨source.tokens.drop n, source.fault⟩ := by
  induction n with
  | zero => rfl
  | succ n ih =>
    have hd := List.drop_eq_getElem_cons h
    rw [after_succ, ih (Nat.le_of_succ_le h), hd]
    rfl

theorem pull_after {source : Source} {n : Nat} {token : Token}
    (h : source.tokens[n]? = some token) :
    (source.after n).pull = (.ok token, source.after (n + 1)) := by
  obtain ⟨hn, ht⟩ := List.getElem?_eq_some_iff.mp h
  have hd := List.drop_eq_getElem_cons hn
  rw [after_succ, after_eq (Nat.le_of_lt hn), hd, ht]
  rfl

theorem pull_after_last (source : Source) :
    (source.after source.tokens.length).pull =
      (.error (source.fault.getD .endMissing), { tokens := [] }) := by
  rw [after_eq (Nat.le_refl _), List.drop_length]
  cases source.fault <;> rfl

end Source

/-- An iterator over a lexer after so many pulls. -/
def LexerSession.after (session : LexerSession) (n : Nat) : LexerSession :=
  (fun session : LexerSession => session.pull.2)^[n] session

theorem Source.after_ofSession (session : LexerSession) (n : Nat) :
    (ofSession session).after n = ofSession (session.after n) := by
  have h : Function.Semiconj ofSession (fun session : LexerSession => session.pull.2)
      fun source : Source => source.pull.2 :=
    fun session => (congrArg Prod.snd (pull_ofSession session)).symm
  exact (h.iterate_right n session).symm

/-- A stream over a source, and the cursor that it follows, after so many pulls. -/
inductive Follows (source : Source) : Nat → TokenStream → Cursor → Prop where
  | resting {i : Nat} (hi : i ≤ source.tokens.length) :
      Follows source i { source := source.after i } ⟨source.tokens, source.fault, i⟩
  | looking {i : Nat} {token : Token} (ht : source.tokens[i]? = some token) :
      Follows source (i + 1) { source := source.after (i + 1), current := some token }
        ⟨source.tokens, source.fault, i⟩
  | exhausted : Follows source (source.tokens.length + 1) { source := { tokens := [] } }
      ⟨source.tokens, none, source.tokens.length⟩

namespace Follows

variable {source : Source} {n : Nat} {s : TokenStream} {cursor : Cursor}

theorem pulls_le (h : Follows source n s cursor) : n ≤ cursor.position + 1 := by
  cases h with
  | resting => exact Nat.le_succ n
  | looking | exhausted => exact Nat.le_refl _

theorem source_eq (h : Follows source n s cursor) : s.source = source.after n := by
  cases h with
  | resting | looking => rfl
  | exhausted => rw [Source.after_succ, Source.pull_after_last]

theorem step_looking {token : Token} {i : Nat} (ht : source.tokens[i]? = some token) (c : Call) :
    let s : TokenStream := { source := source.after (i + 1), current := some token }
    let cursor : Cursor := ⟨source.tokens, source.fault, i⟩
    (s.call c).1 = (cursor.call c).1 ∧ ∃ m, Follows source m (s.call c).2 (cursor.call c).2 := by
  intro s cursor
  obtain ⟨hi, _⟩ := List.getElem?_eq_some_iff.mp ht
  cases c with
  | peek =>
    have hc : cursor.call .peek = (.ok token, cursor) := by simp [Cursor.call, cursor, ht]
    rw [hc]
    exact ⟨rfl, i + 1, .looking ht⟩
  | advance =>
    by_cases hk : token.kind = .endOfInput
    · have hs : s.call .advance = (.ok token, s) := by
        simp [TokenStream.call, TokenStream.advance, TokenStream.peek, s, hk]
      have hc : cursor.call .advance = (.ok token, cursor) := by simp [Cursor.call, cursor, ht, hk]
      rw [hs, hc]
      exact ⟨rfl, i + 1, .looking ht⟩
    · have hs : s.call .advance = (.ok token, s.drop) := by
        simp [TokenStream.call, TokenStream.advance, TokenStream.peek, s, hk]
      have hc : cursor.call .advance = (.ok token, { cursor with position := i + 1 }) := by
        simp [Cursor.call, cursor, ht, hk]
      rw [hs, hc]
      exact ⟨rfl, i + 1, .resting hi⟩

theorem step_last {fault : Option Fault} {rest : Source}
    (hr : rest.pull = (.error (fault.getD .endMissing), { tokens := [] })) (c : Call) :
    let s : TokenStream := { source := rest }
    let cursor : Cursor := ⟨source.tokens, fault, source.tokens.length⟩
    (s.call c).1 = (cursor.call c).1 ∧ ∃ m, Follows source m (s.call c).2 (cursor.call c).2 := by
  intro s cursor
  have hc : cursor.call c =
      (.error (fault.getD .endMissing), ⟨source.tokens, none, source.tokens.length⟩) := by
    simp [Cursor.call, cursor]
  have hs : s.call c = (.error (fault.getD .endMissing), { source := { tokens := [] } }) := by
    cases c <;> simp [TokenStream.call, TokenStream.advance, TokenStream.peek, s, hr]
  rw [hs, hc]
  exact ⟨rfl, _, .exhausted⟩

/-- One call has the same reply on both sides, and the stream follows the cursor from there. -/
theorem step (h : Follows source n s cursor) (c : Call) :
    (s.call c).1 = (cursor.call c).1 ∧ ∃ m, Follows source m (s.call c).2 (cursor.call c).2 := by
  cases h with
  | resting hi =>
    cases ht : source.tokens[n]? with
    | none =>
      obtain rfl : n = source.tokens.length := Nat.le_antisymm hi (List.getElem?_eq_none_iff.mp ht)
      exact step_last source.pull_after_last c
    | some token =>
      have hs : TokenStream.call { source := source.after n } c =
          TokenStream.call { source := source.after (n + 1), current := some token } c := by
        cases c <;> simp [TokenStream.call, TokenStream.advance, TokenStream.peek,
          Source.pull_after ht]
      rw [hs]
      exact step_looking ht c
  | looking ht => exact step_looking ht c
  | exhausted => exact step_last rfl c

theorem run (h : Follows source n s cursor) (calls : List Call) :
    s.replies calls = cursor.replies calls ∧
      ∃ m, Follows source m (s.after calls) (cursor.after calls) := by
  induction calls generalizing n s cursor with
  | nil => exact ⟨rfl, n, h⟩
  | cons c calls ih =>
    obtain ⟨hc, m, hm⟩ := h.step c
    obtain ⟨hr, ha⟩ := ih hm
    exact ⟨congrArg₂ List.cons hc hr, ha⟩

end Follows

theorem Cursor.Within.after {cursor : Cursor} (h : cursor.Within) (calls : List Call) :
    (cursor.after calls).Within := by
  induction calls generalizing cursor with
  | nil => exact h
  | cons c calls ih => exact ih (h.call c)

theorem Cursor.tokens_after (cursor : Cursor) (calls : List Call) :
    (cursor.after calls).tokens = cursor.tokens := by
  induction calls generalizing cursor with
  | nil => rfl
  | cons c calls ih =>
    refine (ih _).trans ?_
    unfold Cursor.call
    split
    · split <;> rfl
    · rfl

namespace TokenStream

theorem call_exhausted (c : Call) :
    call { source := { tokens := [] } } c =
      (.error .endMissing, { source := { tokens := [] } }) := by
  cases c <;> rfl

theorem exhausted_of_peek {s s' : TokenStream} {fault : Fault} (h : s.peek = (.error fault, s')) :
    s' = { source := { tokens := [] } } := by
  obtain ⟨⟨tokens, last⟩, current⟩ := s
  cases current with
  | some token => cases (Prod.mk.inj h).1
  | none =>
    cases tokens with
    | cons token tokens => cases (Prod.mk.inj h).1
    | nil => cases last <;> exact (Prod.mk.inj h).2.symm

theorem exhausted_of_call {s : TokenStream} {c : Call} {fault : Fault}
    (h : (s.call c).1 = .error fault) : (s.call c).2 = { source := { tokens := [] } } := by
  cases hp : s.peek with
  | mk result s' =>
    cases result with
    | ok token => cases c <;> simp [call, advance, hp] at h
    | error fault' =>
      obtain rfl := exhausted_of_peek hp
      cases c <;> simp [call, advance, hp]

theorem after_exhausted (calls : List Call) :
    after { source := { tokens := [] } } calls = { source := { tokens := [] } } := by
  induction calls with
  | nil => rfl
  | cons c calls ih => rw [after, call_exhausted, ih]

theorem after_of_fault {s : TokenStream} {calls : List Call} {fault : Fault}
    (h : .error fault ∈ s.replies calls) : s.after calls = { source := { tokens := [] } } := by
  induction calls generalizing s with
  | nil => cases h
  | cons c calls ih =>
    rcases List.mem_cons.mp h with hc | hc
    · rw [after, exhausted_of_call hc.symm, after_exhausted]
    · exact ih hc

end TokenStream

/-- A stream replies to all calls as a cursor over its tokens. It has pulled no more than the tokens
up to the cursor, none behind the end of the input and none before the first call. A call that meets
a fault leaves nothing, and all later ones find that the end is missing. Over a lexer, each pull is
a scan for one more token. -/
theorem stream_refines_cursor (source : Source) (calls : List Call) :
    let stream : TokenStream := { source }
    let cursor : Cursor := { tokens := source.tokens, fault := source.fault }
    stream.replies calls = cursor.replies calls ∧
    (∃ pulls, (stream.after calls).source = source.after pulls ∧
      pulls ≤ (cursor.after calls).position + 1 ∧ (calls = [] → pulls = 0) ∧
      ∀ i token, source.tokens[i]? = some token → token.kind = .endOfInput → pulls ≤ i + 1) ∧
    (∀ fault, .error fault ∈ stream.replies calls →
      ∀ c, (stream.after calls).call c = (.error .endMissing, stream.after calls)) ∧
    ∀ session n, (Source.ofSession session).after n = .ofSession (session.after n) := by
  intro stream cursor
  have hstart : Follows source 0 stream cursor := .resting (Nat.zero_le _)
  have hw : cursor.Within := fun i token _ _ => Nat.zero_le i
  obtain ⟨hr, pulls, hp⟩ := hstart.run calls
  refine ⟨hr, ?_, ?_, Source.after_ofSession⟩
  · cases calls with
    | nil => exact ⟨0, rfl, Nat.zero_le _, fun _ => rfl, fun i _ _ _ => Nat.zero_le _⟩
    | cons c calls =>
      refine ⟨pulls, hp.source_eq, hp.pulls_le, nofun, ?_⟩
      intro i token ht hk
      have hi := hw.after (c :: calls) i token ((cursor.tokens_after _).symm ▸ ht) hk
      exact Nat.le_trans hp.pulls_le (Nat.succ_le_succ hi)
  · intro fault hf c
    rw [TokenStream.after_of_fault hf, TokenStream.call_exhausted]

/-- The stray character is met by the call that needs it, once. -/
example :
    (TokenStream.ofText "a @").replies [.peek, .advance, .peek, .advance, .peek] =
      [.ok (nameToken "a"), .ok (nameToken "a"), .error (.problem (.unexpectedCharacter "@")),
        .error .endMissing, .error .endMissing] := by
  with_unfolding_all rfl

end ExprLang
