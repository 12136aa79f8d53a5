import YoloLang.Proofs.Variables

/-!
Blocks of C text and the labels in them. To C a label is the beginning of a statement, which goes on
behind it and has to be there before the block ends. Main statement: a label of a program has no
statement in the C text if and only if it stands in the body of another statement with nothing but
labels behind it there, and C derives the text if and only if there is no such label.
-/

namespace YoloLang

open Leaf CText

namespace CText

inductive Nonterminal where
  | statement
  | items
  | file

/-- A token that neither ends a statement or a label nor bounds a block. -/
def Inert (t : String) : Prop := t ∉ [";", ":", "\x7b", "\x7d"]

instance (t : String) : Decidable (Inert t) :=
  inferInstanceAs (Decidable (t ∉ [";", ":", "\x7b", "\x7d"]))

/-- Whether a row of tokens begins with a type and a name. -/
def declares : List String → Bool
  | type :: name :: _ => types.contains type && isWord name
  | _ => false

/-- What C derives rows of tokens from. Expressions are rows of any tokens here, and so is what
stands in the head of a statement. A declaration is an item of a block and no statement. -/
inductive Derives : Nonterminal → List String → Prop where
  | simple {ts : List String} (inert : ∀ t ∈ ts, Inert t) (free : declares ts = false) :
      Derives .statement (ts ++ [";"])
  | labelled {name : String} {ts : List String} (word : isWord name = true)
      (behind : Derives .statement ts) : Derives .statement (name :: ":" :: ts)
  | headed {word : String} {head ts : List String} (mem : word ∈ ["if", "while", "for"])
      (inert : ∀ t ∈ head, t = ";" ∨ Inert t) (body : Derives .statement ts) :
      Derives .statement (word :: "(" :: (head ++ ")" :: ts))
  | block {ts : List String} (inner : Derives .items ts) :
      Derives .statement ("\x7b" :: (ts ++ ["\x7d"]))
  | none : Derives .items []
  | declaration {ts us : List String} (inert : ∀ t ∈ ts, Inert t) (type : declares ts = true)
      (rest : Derives .items us) : Derives .items (ts ++ ";" :: us)
  | item {ts us : List String} (first : Derives .statement ts) (rest : Derives .items us) :
      Derives .items (ts ++ us)
  | main {ts : List String} (inner : Derives .items ts) :
      Derives .file ("int" :: "main" :: "(" :: ")" :: "\x7b" :: (ts ++ ["\x7d"]))

/-- Whether a statement begins here, labels before it passed over. -/
def footed : List String → Bool
  | [] => false
  | t :: rest => if t = ":" ∨ rest.head? = some ":" then footed rest else t != "\x7d"

/-- The labels in a row of tokens behind which no statement comes before the block ends. -/
def stranded : List String → List String
  | [] => []
  | t :: rest =>
      (if rest.head? = some ":" ∧ footed rest = false then [t] else []) ++ stranded rest

example : stranded ["\x7b", "a", ":", "b", "=", "1", ";", "c", ":", "d", ":", "\x7d"] =
    ["c", "d"] := by decide

/-! Labels in rows of tokens. -/

variable {t name : String} {ts us rest : List String}

theorem footed_label (name : String) (rest : List String) :
    footed (name :: ":" :: rest) = footed rest := by
  simp [footed]

theorem footed_brace (plain : rest.head? ≠ some ":") : footed ("\x7d" :: rest) = false := by
  rw [footed, if_neg (not_or.mpr ⟨by decide, plain⟩)]
  rfl

theorem stranded_label (name : String) (plain : rest.head? ≠ some ":") :
    stranded (name :: ":" :: rest) =
      (if footed rest then [] else [name]) ++ stranded rest := by
  have colon : footed (":" :: rest) = footed rest := by simp [footed]
  rw [stranded, colon, stranded, if_neg fun h : _ ∧ _ => plain h.1, List.nil_append]
  cases footed rest <;> rfl

/-- Whatever comes behind the row, no label in it is without a statement. -/
def Settled (ts : List String) : Prop :=
  ∀ rest : List String, rest.head? ≠ some ":" →
    (ts ++ rest).head? ≠ some ":" ∧ stranded (ts ++ rest) = stranded rest

/-- A statement begins with the row. -/
def Starts (ts : List String) : Prop :=
  ∀ rest : List String, rest.head? ≠ some ":" → footed (ts ++ rest) = true

theorem settled_nil : Settled [] := fun _ plain => ⟨plain, rfl⟩

theorem Settled.append (h : Settled ts) (h' : Settled us) : Settled (ts ++ us) := by
  intro rest plain
  obtain ⟨next, kept⟩ := h' rest plain
  obtain ⟨next', kept'⟩ := h _ next
  rw [List.append_assoc]
  exact ⟨next', kept'.trans kept⟩

theorem Settled.cons (other : t ≠ ":") (h : Settled ts) : Settled (t :: ts) := by
  intro rest plain
  obtain ⟨next, kept⟩ := h rest plain
  refine ⟨by simpa using other, ?_⟩
  rw [List.cons_append, stranded, if_neg fun h => next h.1, kept, List.nil_append]

/-- Where there is no label none is without a statement. -/
theorem settled_of_forall (all : ∀ t ∈ ts, t ≠ ":") : Settled ts := by
  induction ts with
  | nil => exact settled_nil
  | cons t ts ih =>
      obtain ⟨here, more⟩ := List.forall_mem_cons.mp all
      exact (ih more).cons here

theorem Settled.label (other : name ≠ ":") (h : Settled ts) (starts : Starts ts) :
    Settled (name :: ":" :: ts) := by
  intro rest plain
  obtain ⟨next, kept⟩ := h rest plain
  refine ⟨by simpa using other, ?_⟩
  rw [List.cons_append, List.cons_append, stranded_label name next, starts rest plain, kept]
  rfl

theorem Settled.starts (h : Settled ts) (colon : t ≠ ":") (brace : t ≠ "\x7d") :
    Starts (t :: ts) := by
  intro rest plain
  rw [List.cons_append, footed, if_neg (not_or.mpr ⟨colon, (h rest plain).1⟩), bne_iff_ne]
  exact brace

theorem Starts.label (h : Starts ts) (name : String) : Starts (name :: ":" :: ts) := by
  intro rest plain
  rw [List.cons_append, List.cons_append, footed_label, h rest plain]

theorem Inert.ne (inert : Inert t) : t ≠ ":" ∧ t ≠ "\x7d" := by
  constructor <;> rintro rfl <;> exact absurd inert (by decide)

theorem inert_of_isWord (word : isWord t = true) : Inert t := by
  have marks : [";", ":", "\x7b", "\x7d"].all (!isWord ·) = true := by decide
  intro mem
  simpa [word] using List.all_eq_true.mp marks t mem

theorem settled_of_inert (inert : ∀ t ∈ ts, t = ";" ∨ Inert t) : Settled ts := by
  refine settled_of_forall fun t mem => ?_
  obtain rfl | inert := inert t mem
  · decide
  · exact inert.ne.1

/-- What C derives has no label without a statement. -/
theorem Derives.settled {n : Nonterminal} (h : Derives n ts) :
    Settled ts ∧ (n = .statement → Starts ts) := by
  induction h with
  | @simple ts inert =>
      have last : Settled [";"] := settled_nil.cons (by decide)
      refine ⟨(settled_of_inert fun t mem => .inr (inert t mem)).append last, fun _ => ?_⟩
      cases ts with
      | nil => exact settled_nil.starts (by decide) (by decide)
      | cons t ts =>
          obtain ⟨here, more⟩ := List.forall_mem_cons.mp inert
          have behind := (settled_of_inert fun t mem => .inr (more t mem)).append last
          exact behind.starts here.ne.1 here.ne.2
  | @labelled name _ word _ ih =>
      have starts := ih.2 rfl
      exact ⟨ih.1.label (inert_of_isWord word).ne.1 starts, fun _ => starts.label name⟩
  | @headed word head ts mem inert _ ih =>
      have words : ∀ word ∈ ["if", "while", "for"], Inert word := by decide
      have behind : Settled ("(" :: (head ++ ")" :: ts)) :=
        ((settled_of_inert inert).append (ih.1.cons (by decide))).cons (by decide)
      exact ⟨behind.cons (words word mem).ne.1,
        fun _ => behind.starts (words word mem).ne.1 (words word mem).ne.2⟩
  | @block ts _ ih =>
      have behind : Settled (ts ++ ["\x7d"]) := ih.1.append (settled_nil.cons (by decide))
      exact ⟨behind.cons (by decide), fun _ => behind.starts (by decide) (by decide)⟩
  | none => exact ⟨settled_nil, nofun⟩
  | declaration inert _ _ ih =>
      have first := settled_of_inert fun t mem => .inr (inert t mem)
      exact ⟨first.append (ih.1.cons (by decide)), nofun⟩
  | item _ _ ih ih' => exact ⟨ih.1.append ih'.1, nofun⟩
  | @main ts _ ih =>
      have inner : Settled ("\x7b" :: (ts ++ ["\x7d"])) :=
        (ih.1.append (settled_nil.cons (by decide))).cons (by decide)
      have first : ∀ t ∈ ["int", "main", "(", ")"], t ≠ ":" := by decide
      exact ⟨(settled_of_forall first).append inner, nofun⟩

/-- Items of a block, with a statement among them that comes first or not. -/
def Row : Bool → List String → Prop
  | true, ts => ∃ xs ys, ts = xs ++ ys ∧ Derives .statement xs ∧ Derives .items ys
  | false, ts => Derives .items ts

theorem Row.items {first : Bool} (h : Row first ts) : Derives .items ts := by
  cases first with
  | false => exact h
  | true =>
      obtain ⟨xs, ys, rfl, statement, items⟩ := h
      exact .item statement items

theorem Derives.row (h : Derives .statement ts) {first : Bool} (behind : Row first us) :
    Row true (ts ++ us) :=
  ⟨ts, us, rfl, h, behind.items⟩

theorem derives_braced {word : String} {head body : List String}
    (mem : word ∈ ["if", "while", "for"]) (inert : ∀ t ∈ head, t = ";" ∨ Inert t)
    (inner : Derives .items body) : Derives .statement (braced word head body) :=
  .headed mem inert (.block inner)

theorem derives_declarations {words : List String} (all : ∀ word ∈ words, isWord word = true)
    (inner : Derives .items ts) :
    Derives .items (words.flatMap (fun word => ["float", word, ";"]) ++ ts) := by
  induction words with
  | nil => exact inner
  | cons word words ih =>
      obtain ⟨here, more⟩ := List.forall_mem_cons.mp all
      have inert : ∀ t ∈ ["float", word], Inert t :=
        List.forall_mem_cons.mpr ⟨by decide, by simpa using inert_of_isWord here⟩
      have type : declares ["float", word] = true := by simp [declares, types, here]
      exact .declaration inert type (ih more)

/-- A block with its head is a statement, and has the labels of the block. -/
theorem stranded_braced {word : String} {head body inner : List String} (named : Inert word)
    (inert : ∀ t ∈ head, t = ";" ∨ Inert t) (plain : rest.head? ≠ some ":")
    (next : (body ++ "\x7d" :: rest).head? ≠ some ":")
    (kept : stranded (body ++ "\x7d" :: rest) = inner ++ stranded ("\x7d" :: rest)) :
    (braced word head body ++ rest).head? ≠ some ":" ∧
      stranded (braced word head body ++ rest) = inner ++ stranded rest ∧
        footed (braced word head body ++ rest) = true := by
  have closes : Settled ["\x7d"] := settled_nil.cons (by decide)
  have opens : Settled ("(" :: (head ++ [")", "\x7b"])) :=
    ((settled_of_inert inert).append (settled_of_forall (by decide))).cons (by decide)
  have row : braced word head body ++ rest =
      word :: ("(" :: (head ++ [")", "\x7b"])) ++ (body ++ "\x7d" :: rest) := by simp [braced]
  have settled := opens.cons named.ne.1
  rw [row]
  refine ⟨(settled _ next).1, ?_, opens.starts named.ne.1 named.ne.2 _ next⟩
  calc
    _ = stranded (body ++ "\x7d" :: rest) := (settled _ next).2
    _ = inner ++ stranded ("\x7d" :: rest) := kept
    _ = inner ++ stranded rest := by rw [← (closes rest plain).2]; rfl

end CText

/-! Labels in programs. -/

theorem inert_name (name : Terminal .identifier) : Inert name.1.text :=
  inert_of_isWord (isWord_of_identifier name.2.2 name.2.1)

theorem inert_around (name : Terminal .identifier) {before after : List String}
    (inert : ∀ t ∈ before ++ after, Inert t) : ∀ t ∈ before ++ name.1.text :: after, Inert t := by
  obtain ⟨first, last⟩ := List.forall_mem_append.mp inert
  exact List.forall_mem_append.mpr ⟨first, List.forall_mem_cons.mpr ⟨inert_name name, last⟩⟩

/-- An expression has no token that ends a statement or a label or bounds a block. -/
theorem Formula.inert {ls : List Leaf} (h : Formula ls) : ∀ t ∈ split (spelling ls), Inert t := by
  have symbols : ∀ s ∈ Lexeme.symbols, s.2 ≠ .semicolon →
      s.1.toList.all (· ∉ [';', ':', '\x7b', '\x7d']) = true := by decide
  have chars := h.avoids (by decide) (by decide) symbols
  intro t mem
  obtain ⟨piece, within, rfl⟩ := List.mem_map.mp mem
  have inside := pieces_subset _ piece within
  have marks : [";", ":", "\x7b", "\x7d"] =
      [';', ':', '\x7b', '\x7d'].map fun c => String.ofList [c] := rfl
  intro mem'
  obtain ⟨c, mark, same⟩ := List.mem_map.mp (marks ▸ mem')
  obtain rfl := String.ofList_injective same
  exact chars c (inside List.mem_cons_self) mark

namespace Tree

/-- Whether statements are nothing but labels. -/
def idle {part : Part} : Tree part → Bool
  | label _ _ _ | empty => true
  | cons first rest => first.idle && rest.idle
  | _ => false

/-- The labels in statements behind which their block has nothing but labels, where a further
statement follows the statements or none does. -/
def stranded {part : Part} : Tree part → Bool → List String
  | branch _ _ _ _ _ _ body _ _, _ | loop _ _ _ _ _ _ body _ _, _
  | count _ _ _ _ _ _ _ _ _ _ body _ _, _ => body.stranded false
  | label _ name _, followed => if followed then [] else [name.1.text]
  | cons first rest, followed =>
      first.stranded (!rest.idle || followed) ++ rest.stranded followed
  | _, _ => []

/-- Whether a statement has no others in it and is no label. -/
def single {part : Part} : Tree part → Bool
  | printText _ _ _ | print _ _ _ | goto _ _ _ | assign _ _ _ _ _ | input _ _ _ => true
  | _ => false

theorem derives_single (t : Tree .statement) (single : t.single = true) :
    Derives .statement t.written := by
  cases t with
  | printText word text ends =>
      exact @Derives.simple ["printf", "(", "\"", "\"", ")"] (by decide) rfl
  | print word value ends =>
      have formed : Formula value.leaves := value.formed
      have row : (print word value ends).written =
          ["printf", "(", "\"", "\"", ",", "(", "float", ")", "("] ++
            (split (spelling value.leaves) ++ [")", ")"]) ++ [";"] := by
        simp [written]
      rw [row]
      have opens : ∀ t ∈ ["printf", "(", "\"", "\"", ",", "(", "float", ")", "("], Inert t := by
        decide
      have closes : ∀ t ∈ [")", ")"], Inert t := by decide
      refine .simple (List.forall_mem_append.mpr ⟨opens, ?_⟩) rfl
      exact List.forall_mem_append.mpr ⟨formed.inert, closes⟩
  | goto word name ends =>
      exact .simple (@inert_around name ["goto"] [] (by decide)) rfl
  | assign word name eq value ends =>
      have formed : Formula value.leaves := value.formed
      have mark : isWord "=" = false := by decide
      have inert : ∀ t ∈ "=" :: split (spelling value.leaves), Inert t :=
        List.forall_mem_cons.mpr ⟨by decide, formed.inert⟩
      exact .simple (@inert_around name [] _ inert) (by simp [declares, mark])
  | input word name ends =>
      have mark : isWord "=" = false := by decide
      have head :
          ∀ t ∈ ["0", "==", "scanf", "(", "\"", "\"", ",", "&", name.1.text, ")"], Inert t :=
        @inert_around name ["0", "==", "scanf", "(", "\"", "\"", ",", "&"] [")"] (by decide)
      have zero : Derives .statement [name.1.text, "=", "0", ";"] :=
        .simple (@inert_around name [] ["=", "0"] (by decide)) (by simp [declares, mark])
      have drops : Derives .statement ["scanf", "(", "\"", "\"", ")", ";"] :=
        @Derives.simple ["scanf", "(", "\"", "\"", ")"] (by decide) rfl
      have inner := Derives.item zero (.item drops .none)
      exact .headed (by simp) (fun t mem => .inr (head t mem)) (.block inner)
  | _ => simp [Tree.single] at single

theorem inert_init (t : Tree (.phrase .forInit)) : ∀ u ∈ t.written, Inert u := by
  cases t with
  | forInit word name eq value =>
      have formed : Formula value.leaves := value.formed
      have inert : ∀ t ∈ ["int"] ++ "=" :: split (spelling value.leaves), Inert t :=
        List.forall_mem_cons.mpr ⟨by decide, List.forall_mem_cons.mpr ⟨by decide, formed.inert⟩⟩
      exact @inert_around name ["int"] _ inert

theorem inert_step (t : Tree (.phrase .forStep)) : ∀ u ∈ t.written, Inert u := by
  cases t with
  | forStep name eq value =>
      have formed : Formula value.leaves := value.formed
      have inert : ∀ t ∈ "=" :: split (spelling value.leaves), Inert t :=
        List.forall_mem_cons.mpr ⟨by decide, formed.inert⟩
      exact @inert_around name [] _ inert

theorem inert_condition (t : Tree (.phrase .comparison)) :
    ∀ u ∈ split (spelling t.leaves), u = ";" ∨ Inert u := by
  have formed : Formula t.leaves := t.formed
  exact fun u mem => .inr (formed.inert u mem)

theorem inert_head (init : Tree (.phrase .forInit)) (condition : Tree (.phrase .comparison))
    (step : Tree (.phrase .forStep)) :
    ∀ u ∈ init.written ++ ";" :: (split (spelling condition.leaves) ++ ";" :: step.written),
      u = ";" ∨ Inert u := by
  refine List.forall_mem_append.mpr ⟨fun u mem => .inr (init.inert_init u mem), ?_⟩
  refine List.forall_mem_cons.mpr ⟨.inl rfl, List.forall_mem_append.mpr ⟨inert_condition _, ?_⟩⟩
  exact List.forall_mem_cons.mpr ⟨.inl rfl, fun u mem => .inr (step.inert_step u mem)⟩

/-- The labels without a statement in the text of statements are those that the statements say. -/
theorem stranded_written {part : Part} (t : Tree part)
    (whole : part = .statement ∨ part = .statements) {rest : List String}
    (plain : rest.head? ≠ some ":") :
    (t.written ++ rest).head? ≠ some ":" ∧
      CText.stranded (t.written ++ rest) = t.stranded (footed rest) ++ CText.stranded rest ∧
        footed (t.written ++ rest) = (!t.idle || footed rest) := by
  have alone (t : Tree .statement) (single : t.single = true) {rest : List String}
      (plain : rest.head? ≠ some ":") : (t.written ++ rest).head? ≠ some ":" ∧
        CText.stranded (t.written ++ rest) = CText.stranded rest ∧
          footed (t.written ++ rest) = true := by
    obtain ⟨settled, starts⟩ := (t.derives_single single).settled
    exact ⟨(settled rest plain).1, (settled rest plain).2, starts rfl rest plain⟩
  -- The row behind is any: a body is followed by the end of its block.
  induction t generalizing rest with
  | printText | print | goto | assign | input => exact alone _ rfl plain
  | label word name ends =>
      have other := (inert_name name).ne.1
      refine ⟨by simpa [written] using other, ?_, ?_⟩
      · exact stranded_label name.1.text plain
      · exact footed_label name.1.text rest
  | empty => exact ⟨plain, rfl, by simp [written, idle]⟩
  | cons first rest' ih ih' =>
      obtain ⟨next, kept, behind⟩ := ih' (.inr rfl) plain
      obtain ⟨next', kept', behind'⟩ := ih (.inl rfl) next
      rw [written, List.append_assoc]
      refine ⟨next', ?_, ?_⟩
      · rw [kept', behind, kept, stranded, List.append_assoc]
      · rw [behind', behind, idle, Bool.not_and, Bool.or_assoc]
  | branch _ _ condition _ _ _ body _ _ _ _ ih | loop _ _ condition _ _ _ body _ _ _ _ ih =>
      have close : ("\x7d" :: rest).head? ≠ some ":" := by simp
      obtain ⟨next, kept, -⟩ := ih (.inr rfl) close
      rw [footed_brace plain] at kept
      exact stranded_braced (by decide) (inert_condition condition) plain next kept
  | count _ _ init _ condition _ step _ _ _ body _ _ _ _ _ _ ih =>
      have close : ("\x7d" :: rest).head? ≠ some ":" := by simp
      obtain ⟨next, kept, -⟩ := ih (.inr rfl) close
      rw [footed_brace plain] at kept
      exact stranded_braced (by decide) (inert_head init condition step) plain next kept
  | _ => simp at whole

/-- C derives the text of statements with a label only at the end of no body. -/
theorem derives_written {part : Part} (t : Tree part)
    (whole : part = .statement ∨ part = .statements) {followed : Bool}
    (footing : t.stranded followed = []) {rest : List String} (row : Row followed rest) :
    Row (!t.idle || followed) (t.written ++ rest) := by
  induction t generalizing followed rest with
  | printText | print | goto | assign | input => exact (derives_single _ rfl).row row
  | label word name ends =>
      cases followed with
      | false => simp [stranded] at footing
      | true =>
          obtain ⟨xs, ys, rfl, statement, items⟩ := row
          have named := isWord_of_identifier name.2.2 name.2.1
          exact ⟨name.1.text :: ":" :: xs, ys, rfl, .labelled named statement, items⟩
  | empty => exact row
  | cons first rest' ih ih' =>
      obtain ⟨here, there⟩ := List.append_eq_nil_iff.mp footing
      rw [written, List.append_assoc, idle, Bool.not_and, Bool.or_assoc]
      exact ih (.inl rfl) here (ih' (.inr rfl) there row)
  | branch _ _ condition _ _ _ body _ _ _ _ ih | loop _ _ condition _ _ _ body _ _ _ _ ih =>
      have inner := (ih (.inr rfl) footing Derives.none).items
      rw [List.append_nil] at inner
      exact (derives_braced (by simp) (inert_condition condition) inner).row row
  | count _ _ init _ condition _ step _ _ _ body _ _ _ _ _ _ ih =>
      have inner := (ih (.inr rfl) footing Derives.none).items
      rw [List.append_nil] at inner
      exact (derives_braced (by simp) (inert_head init condition step) inner).row row
  | _ => simp at whole

end Tree

namespace Program

variable {p : Program}

/-- The labels without a statement in the C text of a program are those that its statements say. -/
theorem stranded_text (lexed : ∀ t ∈ p.tokens, t.Lexed) :
    CText.stranded (CText.tokens (p.header ++ p.code).toList) = p.body.stranded true := by
  have opens : Settled ["int", "main", "(", ")", "\x7b"] := settled_of_forall (by decide)
  have declared := (derives_declarations (isWord_of_mem lexed) .none).settled.1
  rw [List.append_nil] at declared
  have footer : ["return", "0", ";", "\x7d"].head? ≠ some ":" := by simp
  obtain ⟨next, kept, -⟩ := p.body.stranded_written (.inr rfl) footer
  have last : footed ["return", "0", ";", "\x7d"] = true ∧
      CText.stranded ["return", "0", ";", "\x7d"] = [] := by decide
  rw [tokens_text lexed, ((opens.append declared) _ next).2, kept, last.1, last.2, List.append_nil]

/-- C derives the text of a program if and only if no label in it is without a statement. -/
theorem derives_text_iff (lexed : ∀ t ∈ p.tokens, t.Lexed) :
    Derives .file (CText.tokens (p.header ++ p.code).toList) ↔ p.body.stranded true = [] := by
  rw [← stranded_text lexed]
  constructor
  · intro derives
    have settled := (derives.settled.1 [] (by simp)).2
    rwa [List.append_nil] at settled
  · intro footing
    rw [stranded_text lexed] at footing
    have answer : Row true ["return", "0", ";"] :=
      ⟨["return", "0", ";"], [], rfl, @Derives.simple ["return", "0"] (by decide) rfl, .none⟩
    have body := (p.body.derives_written (.inr rfl) footing answer).items
    have file := Derives.main (derives_declarations (isWord_of_mem lexed) body)
    rw [tokens_text lexed]
    simpa [List.append_assoc] using file

end Program

namespace Compiler

variable {c : Compiler} {source : String}

/-- The labels of a compiled text that have no statement to label are those at the end of a body,
and C derives the text if and only if there are none. -/
theorem stranded_of_compileText {k : Compilation} (h : (c.compileText source).1 = .ok k) :
    ∃ p : Program, tokenize source = .ok p.tokens ∧
      ∀ q : Program, tokenize source = .ok q.tokens →
        let tokens := CText.tokens k.file.text.toList
        CText.stranded tokens = q.body.stranded true ∧
          (Derives .file tokens ↔ q.body.stranded true = []) := by
  obtain ⟨p, lexed, all⟩ := translations_of_compileText h
  refine ⟨p, lexed, fun q lexed' => ?_⟩
  obtain ⟨translation, each⟩ := all q lexed'
  rw [translation.text]
  exact ⟨Program.stranded_text each, Program.derives_text_iff each⟩

set_option maxRecDepth 4096 in
theorem stranded_of_last_label : ∃ k : Compilation,
    ((⟨"out.c", none⟩ : Compiler).compileText
        "LET a = 1\nIF (a == 1) THEN\nLABEL x\nENDIF").1 = .ok k ∧
      CText.stranded (CText.tokens k.file.text.toList) = ["x"] ∧
        ¬ Derives .file (CText.tokens k.file.text.toList) := by
  have compiled : ∃ k, ((⟨"out.c", none⟩ : Compiler).compileText
      "LET a = 1\nIF (a == 1) THEN\nLABEL x\nENDIF").1 = .ok k ∧
        CText.stranded (CText.tokens k.file.text.toList) = ["x"] := ⟨_, by cbv, by cbv⟩
  obtain ⟨k, compiled, row⟩ := compiled
  obtain ⟨p, lexed, all⟩ := stranded_of_compileText compiled
  obtain ⟨same, derives⟩ := all p lexed
  refine ⟨k, compiled, row, fun h => ?_⟩
  have none := derives.mp h
  rw [← same, row] at none
  contradiction

end Compiler
end YoloLang
