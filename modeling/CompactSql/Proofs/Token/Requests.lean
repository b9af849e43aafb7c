import Mathlib.Data.List.GetD
import CompactSql.Proofs.Token.Partition

/-!
# Requests to one lexer

A lexer may be asked for its next token or for all that are left, in any order and as often
as one likes.  Whatever it is asked for, it hands out the tokens that calls alone would give,
one piece of that stream behind the other: a request for all tokens takes those up to the
end, or up to the first fault.
-/

namespace CompactSql

def Token.Faulty (token : Token) : Prop := ∃ cause, token.kind = .fault cause

theorem Token.not_faulty {token : Token} :
    ¬ token.Faulty ↔ ∀ cause, token.kind ≠ .fault cause := not_exists

namespace Lexer

inductive Request where
  | next
  | tokenize
  deriving DecidableEq, Repr

inductive Reply where
  | token (token : Token)
  | tokens (result : Except Failure (List Token))
  deriving DecidableEq

def answer (lexer : Lexer) : Request → Reply × Lexer
  | .next => (.token lexer.next.1, lexer.next.2)
  | .tokenize => (.tokens lexer.tokenize.1, lexer.tokenize.2)

def serve (lexer : Lexer) : List Request → List Reply
  | [] => []
  | request :: others => (lexer.answer request).1 :: (lexer.answer request).2.serve others

/-- How a request is answered behind so many tokens of the stream, and what the answer hands
out.  All tokens are given if none of those left is faulty, and then they go up to the end;
if not, the first faulty one is told, and it is the last that is handed out. -/
inductive Answers (stream : Nat → Token) (done : Nat) : Request → Reply → List Token → Prop
  | next : Answers stream done .next (.token (stream done)) [stream done]
  | whole {front : List Token} {last : Token} :
      (∀ n, done ≤ n → ¬ (stream n).Faulty) → (∀ token ∈ front, token.isEof = false) →
      last.isEof = true →
      Answers stream done .tokenize (.tokens (.ok (front ++ [last]))) (front ++ [last])
  | stopped {front : List Token} {token : Token} {cause : Token.Fault} :
      (∀ earlier ∈ front, ¬ earlier.Faulty) → token.kind = .fault cause →
      Answers stream done .tokenize (.tokens (.error ⟨.lexical cause, token.span⟩))
        (front ++ [token])

/-- The replies hand out one piece of the stream behind the other, from this place on. -/
inductive Serves (stream : Nat → Token) : Nat → List Request → List Reply → Prop
  | nil {done : Nat} : Serves stream done [] []
  | cons {done : Nat} {request : Request} {reply : Reply} {piece : List Token}
      {requests : List Request} {replies : List Reply} :
      Answers stream done request reply piece →
      piece = (List.range' done piece.length).map stream →
      Serves stream (done + piece.length) requests replies →
      Serves stream done (request :: requests) (reply :: replies)

private theorem call_eq_next (lexer : Lexer) (n : Nat) : lexer.call n = (lexer.after n).next.1 := by
  induction n generalizing lexer with
  | zero => rfl
  | succ n ih => rw [call, after, ih]

theorem after_after (lexer : Lexer) (m n : Nat) :
    (lexer.after m).after n = lexer.after (m + n) := by
  induction m generalizing lexer with
  | zero => rw [after, Nat.zero_add]
  | succ m ih => rw [after, ih, Nat.add_right_comm, after]

theorem call_after (lexer : Lexer) (m n : Nat) :
    (lexer.after m).call n = lexer.call (m + n) := by
  rw [call_eq_next, after_after, ← call_eq_next]

theorem call_eq_getD (lexer : Lexer) (n : Nat) :
    lexer.call n = lexer.stream.getD n lexer.ending := by
  obtain ⟨tokens, whole, -, calls⟩ := lexer.stream_tiled
  rw [calls, whole]
  rcases Nat.lt_trichotomy n tokens.length with inner | rfl | behind
  · rw [List.getD_append _ _ _ _ inner]
  · simp
  · rw [List.getD_eq_default _ _ (Nat.le_of_lt behind),
      List.getD_eq_default _ _ (by rw [List.length_append]; exact behind)]

private theorem front_eq_calls {lexer : Lexer} {front back : List Token}
    (split : lexer.stream = front ++ back) :
    front = (List.range front.length).map lexer.call := by
  refine List.ext_getElem (by simp) fun n inside _ => ?_
  rw [List.getElem_map, List.getElem_range, call_eq_getD, split,
    List.getD_append _ _ _ _ inside, List.getD_eq_getElem _ _ inside]

variable {lexer : Lexer}

private theorem not_faulty_call (sound : ∀ token ∈ lexer.stream, ∀ cause, token.kind ≠ .fault cause)
    (n : Nat) : ¬ (lexer.call n).Faulty := by
  rw [call_eq_getD]
  by_cases inside : n < lexer.stream.length
  · rw [List.getD_eq_getElem _ _ inside]
    exact Token.not_faulty.mpr (sound _ (List.getElem_mem inside))
  · rw [List.getD_eq_default _ _ (Nat.le_of_not_lt inside)]
    rintro ⟨cause, fault⟩
    cases fault

theorem answer_piece (lexer : Lexer) (request : Request) :
    ∃ piece, Answers lexer.call 0 request (lexer.answer request).1 piece ∧
      piece = (List.range piece.length).map lexer.call ∧
      (lexer.answer request).2 = lexer.after piece.length := by
  cases request with
  | next => exact ⟨[lexer.call 0], .next, rfl, rfl⟩
  | tokenize =>
      rcases lexer.tokenize_walk with
        ⟨sound, whole⟩ | ⟨front, token, back, cause, split, sound, fault, stopped⟩
      -- with no fault in the stream there is none behind it either, where the end repeats
      · obtain ⟨tokens, split, tiled, -⟩ := lexer.stream_tiled
        have piece := front_eq_calls (split.trans (List.append_nil _).symm)
        have silent : ∀ n, 0 ≤ n → ¬ (lexer.call n).Faulty := fun n _ => not_faulty_call sound n
        refine ⟨tokens ++ [lexer.ending], ?_, piece, ?_⟩
        · rw [answer, whole, split]
          exact .whole silent tiled.isEof_eq rfl
        · rw [answer, whole, split]
      · rw [List.append_cons] at split
        refine ⟨front ++ [token], ?_, front_eq_calls split, ?_⟩
        · rw [answer, stopped]
          exact .stopped (fun earlier member => Token.not_faulty.mpr (sound earlier member)) fault
        · rw [answer, stopped, List.length_append, List.length_singleton]

private theorem Answers.behind {done : Nat} {request : Request} {reply : Reply} {piece : List Token}
    (h : Answers (lexer.after done).call 0 request reply piece) :
    Answers lexer.call done request reply piece := by
  cases h with
  | next =>
      rw [call_after, Nat.add_zero]
      exact .next
  | whole sound inner final =>
      refine .whole (fun n least => ?_) inner final
      have left := sound (n - done) (Nat.zero_le _)
      rwa [call_after, Nat.add_sub_of_le least] at left
  | stopped sound fault => exact .stopped sound fault

theorem serve_after (lexer : Lexer) (done : Nat) (requests : List Request) :
    Serves lexer.call done requests ((lexer.after done).serve requests) := by
  induction requests generalizing done with
  | nil => exact .nil
  | cons request others ih =>
      obtain ⟨piece, answers, taken, place⟩ := (lexer.after done).answer_piece request
      have shifted : piece = (List.range' done piece.length).map lexer.call := by
        rw [List.range'_eq_map_range, List.map_map]
        refine taken.trans (List.map_congr_left fun n _ => ?_)
        exact call_after lexer done n
      rw [after_after] at place
      rw [serve, place]
      exact .cons answers.behind shifted (ih _)

end Lexer

end CompactSql
