import YoloLang.Proofs.Feed
import YoloLang.Proofs.Tiling

/-!
Calls of one cursor in any order, some for the next token and some for the next item of its
sequence. Main statement: together they give the tokens of the source once each and in order, a
fault or the end is met again by every later call for a token, and the sequence is over after
either.
-/

namespace YoloLang

open Lexeme

namespace Cursor

inductive Call where
  | token
  | item
deriving DecidableEq, Repr

/-- What a call answers, and the cursor after it. Only an item can be missing. -/
def ask (c : Cursor) : Call → Option (Except (Located LexFault) Token) × Cursor
  | .token => (some c.nextToken.1, c.nextToken.2)
  | .item => c.next

/-- The cursor when these calls have been made. -/
def later (c : Cursor) (calls : List Call) : Cursor :=
  calls.foldl (fun c call => (c.ask call).2) c

/-- The token that an answer gives, the end token apart. -/
def given? : Option (Except (Located LexFault) Token) → Option Token
  | some (.ok t) => if t.kind = .eof then none else some t
  | _ => none

/-- The tokens that are given by these calls. -/
def given (c : Cursor) : List Call → List Token
  | [] => []
  | call :: calls => (given? (c.ask call).1).toList ++ (c.ask call).2.given calls

/-- The fault that is an item. -/
def faultItem? : Call → Option (Except (Located LexFault) Token) → Option (Located LexFault)
  | .item, some (.error fault) => some fault
  | _, _ => none

def faultItems (c : Cursor) : List Call → List (Located LexFault)
  | [] => []
  | call :: calls =>
      (faultItem? call (c.ask call).1).toList ++ (c.ask call).2.faultItems calls

theorem later_cons (c : Cursor) (call : Call) (calls : List Call) :
    c.later (call :: calls) = (c.ask call).2.later calls := rfl

/-! Where a cursor stays. -/

/-- Every call for a token has this answer from here on. -/
def Rests (c : Cursor) (answer : Except (Located LexFault) Token) : Prop :=
  c.nextToken = (answer, c)

variable {c next : Cursor} {t : Token} {fault : Located LexFault}
  {answer : Except (Located LexFault) Token}

/-- Whether the sequence is over does not matter to a call for a token. -/
theorem nextToken_exhausted (c : Cursor) (b : Bool) :
    ({ c with exhausted := b } : Cursor).nextToken =
      (c.nextToken.1, { c.nextToken.2 with exhausted := b }) := by
  simp only [nextToken, skipBlanks, drop, faultSpan]
  cases Lexeme.read (c.rest.drop (skipped c.rest).length) <;> rfl

theorem exhausted_nextToken (c : Cursor) : c.nextToken.2.exhausted = c.exhausted := by
  have same := congrArg (·.2.exhausted) (c.nextToken_exhausted c.exhausted)
  exact same

theorem Rests.exhausted (h : c.Rests answer) (b : Bool) :
    ({ c with exhausted := b } : Cursor).Rests answer := by
  rw [Rests, nextToken_exhausted, h]

/-- Behind a gap there is no further gap. -/
theorem gap_nil {gap rest : List Char} (h : Gap gap rest) : Gap [] rest := by
  refine .blanks (by simp) fun c first => ?_
  cases h with
  | blanks _ ends => exact ends c first
  | comment _ _ ends =>
      rw [ends c first]
      decide

/-- A fault leaves the cursor where the next call meets it again. -/
theorem rests_of_fault (call : c.nextToken = (.error fault, next)) : next.Rests (.error fault) := by
  obtain ⟨gap, rest, -, skips, ⟨l, after, -, -, gives⟩ |
    ⟨cause, before, broken, breaks, split, fails⟩⟩ := c.nextToken_cases
  · simp [gives] at call
  · rw [fails] at call
    obtain ⟨rfl, rfl⟩ := call
    have here : [] ++ rest = rest := rfl
    exact nextToken_of_breaks here.symm (gap_nil skips) breaks split

theorem rests_of_eof (call : c.nextToken = (.ok t, next)) (kind : t.kind = .eof) :
    t.text = "" ∧ next.Rests (.ok t) := by
  obtain ⟨none, rfl⟩ := rest_of_eof call kind
  exact ⟨rfl, nextToken_of_nil none⟩

/-- Where a cursor rests there are no more tokens. -/
theorem Rests.kind_eof (h : c.Rests (.ok t)) : t.kind = .eof := by
  by_contra kind
  exact Nat.lt_irrefl _ (length_nextToken_lt h kind)

theorem next_of_exhausted (h : c.exhausted = true) : c.next = (none, c) := by
  rw [Cursor.next, if_pos h]

/-- A cursor that rests is moved by no call. -/
theorem Rests.ask (h : c.Rests answer) (call : Call) : (c.ask call).2.Rests answer := by
  cases call with
  | token =>
      change c.nextToken.2.Rests answer
      rwa [h]
  | item =>
      change c.next.2.Rests answer
      rw [Cursor.next]
      split
      · exact h
      · rw [h]
        cases answer with
        | error fault => exact h.exhausted true
        | ok t =>
            simp only [h.kind_eof, if_true]
            exact h.exhausted true

theorem Rests.later (h : c.Rests answer) (calls : List Call) : (c.later calls).Rests answer := by
  induction calls generalizing c with
  | nil => exact h
  | cons call calls ih => exact ih (h.ask call)

theorem exhausted_ask (h : c.exhausted = true) (call : Call) : (c.ask call).2.exhausted = true := by
  cases call with
  | token => exact c.exhausted_nextToken.trans h
  | item =>
      change c.next.2.exhausted = true
      rw [next_of_exhausted h]
      exact h

theorem exhausted_later (h : c.exhausted = true) (calls : List Call) :
    (c.later calls).exhausted = true := by
  induction calls generalizing c with
  | nil => exact h
  | cons call calls ih => exact ih (exhausted_ask h call)

/-! What one call does. -/

/-- Every way a call can end: with the next token, at a fault or the end, or past the end of the
sequence. -/
inductive Asked (c : Cursor) : Call → Option (Except (Located LexFault) Token) → Cursor → Prop where
  | gives {t : Token} {next : Cursor} (call : Call) (found : c.nextToken = (.ok t, next))
      (kind : t.kind ≠ .eof) : Asked c call (some (.ok t)) next
  | fails {fault : Located LexFault} {next : Cursor} (found : c.nextToken = (.error fault, next)) :
      Asked c .token (some (.error fault)) next
  | ends {t : Token} {next : Cursor} (found : c.nextToken = (.ok t, next)) (kind : t.kind = .eof) :
      Asked c .token (some (.ok t)) next
  | failsLast {fault : Located LexFault} {next : Cursor}
      (found : c.nextToken = (.error fault, next)) (more : c.exhausted = false) :
      Asked c .item (some (.error fault)) { next with exhausted := true }
  | endsLast {t : Token} {next : Cursor} (found : c.nextToken = (.ok t, next))
      (kind : t.kind = .eof) : Asked c .item none { next with exhausted := true }
  | past (h : c.exhausted = true) : Asked c .item none c

theorem asked_ask (c : Cursor) (call : Call) : Asked c call (c.ask call).1 (c.ask call).2 := by
  cases found : c.nextToken with
  | mk answer next =>
      cases call with
      | token =>
          simp only [ask, found]
          cases answer with
          | error fault => exact .fails found
          | ok t =>
              by_cases kind : t.kind = .eof
              · exact .ends found kind
              · exact .gives _ found kind
      | item =>
          simp only [ask, Cursor.next]
          by_cases past : c.exhausted = true
          · simp only [past, if_true]
            exact .past past
          · simp only [past, Bool.false_eq_true, if_false, found]
            cases answer with
            | error fault => exact .failsLast found (by simpa using past)
            | ok t =>
                by_cases kind : t.kind = .eof
                · simp only [kind, if_true]
                  exact .endsLast found kind
                · simp only [kind, if_false]
                  exact .gives _ found kind

/-- A fault is answered again by every later call for a token. -/
theorem rests_of_failed {call : Call} (h : (c.ask call).1 = some (.error fault)) :
    (c.ask call).2.Rests (.error fault) := by
  have asked := c.asked_ask call
  rw [h] at asked
  generalize (c.ask call).2 = next at asked ⊢
  cases asked with
  | fails found => exact rests_of_fault found
  | failsLast found => exact (rests_of_fault found).exhausted true

/-- So is the end token, which has no text. -/
theorem rests_of_ended {call : Call} (h : (c.ask call).1 = some (.ok t)) (kind : t.kind = .eof) :
    t.text = "" ∧ (c.ask call).2.Rests (.ok t) := by
  have asked := c.asked_ask call
  rw [h] at asked
  generalize (c.ask call).2 = next at asked ⊢
  cases asked with
  | gives _ _ other => exact absurd kind other
  | ends found => exact rests_of_eof found kind

/-- The sequence is over with an item that is no token. -/
theorem exhausted_of_item (h : ∀ t, (c.ask .item).1 ≠ some (.ok t)) :
    (c.ask .item).2.exhausted = true := by
  have asked := c.asked_ask .item
  generalize (c.ask .item).1 = answer, (c.ask .item).2 = next at asked h ⊢
  cases asked with
  | gives => exact absurd rfl (h _)
  | failsLast | endsLast => rfl
  | past past => exact past

/-- A token is at least one byte long. -/
theorem offset_lt_of_given {call : Call} (h : (c.ask call).1 = some (.ok t))
    (kind : t.kind ≠ .eof) : c.position.offset < (c.ask call).2.position.offset := by
  have asked := c.asked_ask call
  rw [h] at asked
  generalize (c.ask call).2 = next at asked ⊢
  cases asked with
  | ends _ eof => exact absurd eof kind
  | gives _ found =>
      obtain ⟨gap, rest, -, -, ⟨l, after, read, -, gives⟩ | ⟨_, _, _, -, -, fails⟩⟩ :=
        c.nextToken_cases
      · rw [gives] at found
        obtain ⟨rfl, rfl⟩ := found
        have bytes := utf8Length_pos (read_raw_ne_nil read kind)
        simp only [Position.offset_after]
        omega
      · simp [fails] at found

theorem feed_of_rests (h : c.Rests answer) :
    Feed.ofCursor c = ⟨[], match answer with
      | .ok t => .eof t.span
      | .error fault => .fault fault⟩ := by
  cases answer with
  | error fault => exact Feed.ofCursor_of_fault h
  | ok t => exact Feed.ofCursor_of_eof h h.kind_eof

/-- What a call gives is the first of what is to come. -/
theorem feed_ask (c : Cursor) (call : Call) :
    (given? (c.ask call).1).toList ++ (Feed.ofCursor (c.ask call).2).ahead =
        (Feed.ofCursor c).ahead ∧
      (Feed.ofCursor (c.ask call).2).ending = (Feed.ofCursor c).ending := by
  have asked := c.asked_ask call
  generalize (c.ask call).1 = answer, (c.ask call).2 = next at asked ⊢
  cases asked with
  | gives _ found kind =>
      rw [Feed.ofCursor_of_call found kind]
      simp [given?, kind]
  | fails found =>
      rw [Feed.ofCursor_of_fault found, feed_of_rests (rests_of_fault found)]
      exact ⟨rfl, rfl⟩
  | ends found kind =>
      rw [Feed.ofCursor_of_eof found kind, feed_of_rests (rests_of_eof found kind).2]
      simp [given?, kind]
  | failsLast found =>
      rw [Feed.ofCursor_of_fault found, feed_of_rests ((rests_of_fault found).exhausted true)]
      exact ⟨rfl, rfl⟩
  | endsLast found kind =>
      rw [Feed.ofCursor_of_eof found kind,
        feed_of_rests ((rests_of_eof found kind).2.exhausted true)]
      exact ⟨rfl, rfl⟩
  | past => exact ⟨rfl, rfl⟩

/-- What has been given and what is still to come are the tokens of the text. -/
theorem given_append_ahead (c : Cursor) (calls : List Call) :
    c.given calls ++ (Feed.ofCursor (c.later calls)).ahead = (Feed.ofCursor c).ahead ∧
      (Feed.ofCursor (c.later calls)).ending = (Feed.ofCursor c).ending := by
  induction calls generalizing c with
  | nil => exact ⟨rfl, rfl⟩
  | cons call calls ih =>
      obtain ⟨tokens, ending⟩ := ih (c.ask call).2
      obtain ⟨first, same⟩ := c.feed_ask call
      rw [later_cons, given, List.append_assoc, tokens]
      exact ⟨first, ending.trans same⟩

theorem faultItems_of_exhausted (h : c.exhausted = true) (calls : List Call) :
    c.faultItems calls = [] := by
  induction calls generalizing c with
  | nil => rfl
  | cons call calls ih =>
      have none : faultItem? call (c.ask call).1 = none := by
        cases call with
        | token => rfl
        | item =>
            have past : (c.ask .item).1 = none := congrArg Prod.fst (next_of_exhausted h)
            rw [past]
            rfl
      rw [faultItems, none, ih (exhausted_ask h call)]
      rfl

/-- The sequence has at most one fault. -/
theorem length_faultItems_le (c : Cursor) (calls : List Call) :
    (c.faultItems calls).length ≤ 1 := by
  induction calls generalizing c with
  | nil => exact Nat.zero_le 1
  | cons call calls ih =>
      rw [faultItems]
      have asked := c.asked_ask call
      have more := ih (c.ask call).2
      generalize (c.ask call).1 = answer, (c.ask call).2 = next at asked more ⊢
      cases asked with
      | failsLast found =>
          rw [faultItems_of_exhausted rfl]
          exact Nat.le_refl 1
      | gives call => cases call <;> exact more
      | _ => exact more

theorem length_ahead_le (c : Cursor) : (Feed.ofCursor c).ahead.length ≤ c.rest.length := by
  fun_induction Feed.ofCursor c with
  | case1 | case2 => exact Nat.zero_le _
  | case3 c token after h kind less rest ih =>
      exact Nat.lt_of_le_of_lt ih less

/-! The sequence. -/

/-- The sequence of items is the tokens to come, with the fault if one ends them. -/
theorem drain_of_more (h : c.exhausted = false) :
    c.drain.1 = (Feed.ofCursor c).ahead.map .ok ++ match (Feed.ofCursor c).ending with
      | .eof _ => []
      | .fault fault => [.error fault] := by
  fun_induction Feed.ofCursor c with
  | case1 c fault after found =>
      have item : c.next = (some (.error fault), { after with exhausted := true }) := by
        simp [Cursor.next, h, found]
      rw [drain]
      split <;> simp_all
  | case2 c token after found kind =>
      have item : c.next = (none, { after with exhausted := true }) := by
        simp [Cursor.next, h, found, kind]
      rw [drain]
      split <;> simp_all
  | case3 c token after found kind less rest ih =>
      have item : c.next = (some (.ok token), after) := by
        simp [Cursor.next, h, found, kind]
      have more : after.exhausted = false := by
        have same := c.exhausted_nextToken
        rw [found] at same
        exact same.trans h
      rw [drain]
      split <;> simp_all
      rfl

/-- Calls of either sort give the tokens of a source in order, none of them twice and none left out.
Behind a fault or the end token every call for a token has this answer again. The sequence has at
most one fault, and with it or at its end it is over. -/
theorem given_in_order (source : String) (earlier after : List Call) (call : Call) :
    let start := ofSource source
    let c := start.later earlier
    let answer := (c.ask call).1
    let next := (c.ask call).2
    let stop := next.later after
    (start.given earlier ++ (Feed.ofCursor c).ahead = (Feed.ofCursor start).ahead ∧
        (Feed.ofCursor c).ending = (Feed.ofCursor start).ending) ∧
      (∀ fault, answer = some (.error fault) → stop.nextToken.1 = .error fault) ∧
      (∀ t, answer = some (.ok t) → t.kind = .eof →
        t.text = "" ∧ stop.nextToken.1 = .ok t) ∧
      (start.faultItems earlier).length ≤ 1 ∧
      (call = .item → (∀ t, answer ≠ some (.ok t)) → stop.next = (none, stop)) ∧
      (∀ t, answer = some (.ok t) → t.kind ≠ .eof → c.position.offset < next.position.offset) ∧
      ∀ tokens, tokenize source = .ok tokens →
        start.drain.1 = tokens.map .ok ∧ tokens.length ≤ source.utf8ByteSize + 1 := by
  intro start c answer next stop
  refine ⟨start.given_append_ahead earlier, ?_, ?_, start.length_faultItems_le earlier, ?_, ?_, ?_⟩
  · intro fault failed
    exact congrArg Prod.fst ((rests_of_failed failed).later after)
  · intro t given kind
    obtain ⟨text, rests⟩ := rests_of_ended given kind
    exact ⟨text, congrArg Prod.fst (rests.later after)⟩
  · rintro rfl none
    exact next_of_exhausted (exhausted_later (exhausted_of_item none) after)
  · intro t given kind
    exact offset_lt_of_given given kind
  · intro tokens lexed
    obtain ⟨⟨⟨span, ends⟩, -, -⟩, rfl⟩ := tokenize_eq_ok.mp lexed
    constructor
    · rw [drain_of_more rfl, ends, List.append_nil]
    · have few := (ofSource source).length_ahead_le
      have bytes := length_le_utf8Length source.toList
      have line : (ofSource source).rest.length = source.toList.length + 1 := by simp [ofSource]
      rw [← utf8ByteSize_ofList, String.ofList_toList] at bytes
      omega

-- A fault that a call for a token has met is still an item of the sequence, once.
example : (ofSource "!").faultItems [.token, .item, .token, .item] =
    [⟨.expectedNotEq '\n', some ⟨0, 1, 1, 1⟩⟩] := rfl

end Cursor
end YoloLang
