import Rdf.LexicalValue.Dynamic
import Rdf.Proofs.Iri.Characters
import Rdf.Proofs.Term.BlankNodes
import Rdf.Proofs.Term.Literals

/-!
# Reading canonical texts back

A text of lines, one canonical triple in each, is read back by a reader that knows nothing but the
text: it splits at line feeds, takes what stands between angle brackets for an IRI, undoes the escapes
between quotes, and looks at the next character to tell what a literal is. The scopes of blank nodes
are not in the text, and nothing else is missing. Main statements:

* `readTerm?_canonical`: a term is read back, whatever follows the blank after it;
* `read?_write`: so are the triples of a text;
* `lines_lose_only_scopes`: two triples have one text only if they differ in scopes alone.
-/

namespace Rdf

/-! ## Terms without scopes -/

/-- The blank node with the same reference in a scope common to all. -/
def BlankNode.unscoped (b : BlankNode) : BlankNode := ⟨default, b.reference⟩

/-- The term without the scope of its blank node. -/
def Term.unscoped (t : Term) : Term := t.rename BlankNode.unscoped

/-- The triple without the scopes of its blank nodes. -/
def Triple.unscoped (t : Triple) : Triple := t.rename BlankNode.unscoped

/-- The text does not show the scopes. -/
theorem Triple.canonical_unscoped (t : Triple) : t.unscoped.canonical = t.canonical := by
  rcases t with ⟨_ | _, p, _ | _ | _⟩ <;> rfl

namespace Lines

/-! ## The reader -/

/-- The characters before a mark, and those after it. -/
def until? (mark : Char) (cs : List Char) : Option (List Char × List Char) :=
  match cs.dropWhile (· ≠ mark) with
  | [] => none
  | _ :: rest => some (cs.takeWhile (· ≠ mark), rest)

/-- An IRI between angle brackets, and what follows it. -/
def readIri? : List Char → Option (Iri × List Char)
  | '<' :: cs => (until? '>' cs).map fun (text, rest) => (⟨String.ofList text⟩, rest)
  | _ => none

/-- The 32 digits of a blank node, and what follows them. -/
def readBlankNode? : List Char → Option (BlankNode × List Char)
  | '_' :: ':' :: cs =>
    (Hex.toNat? (cs.take 32)).map fun n => (⟨default, Uuid.ofNat n⟩, cs.drop 32)
  | _ => none

/-- The character that stands after a backslash for another one. -/
def unescape (c : Char) : Char := if c = 'n' then '\n' else if c = 'r' then '\r' else c

/-- A lexical form up to its closing quote, and what follows that. -/
def readLexical? : List Char → Option (List Char × List Char)
  | [] => none
  | ['\\'] => none
  | '"' :: cs => some ([], cs)
  | '\\' :: c :: cs => (readLexical? cs).map fun (lexical, rest) => (unescape c :: lexical, rest)
  | c :: cs => (readLexical? cs).map fun (lexical, rest) => (c :: lexical, rest)

/-- A literal, and what follows it. A language tag ends at a blank. -/
def readLiteral? : List Char → Option (Literal × List Char)
  | '"' :: cs => do
    let (lexical, rest) ← readLexical? cs
    match rest with
    | '@' :: rest =>
      let tag := rest.takeWhile (· ≠ ' ')
      return (.tagged (String.ofList lexical) (String.ofList tag), rest.dropWhile (· ≠ ' '))
    | '^' :: '^' :: rest =>
      let (datatype, rest) ← readIri? rest
      return (.typed (String.ofList lexical) datatype, rest)
    | rest => return (.plain (String.ofList lexical), rest)
  | _ => none

/-- A term, and what follows it. The first character tells the kind. -/
def readTerm? (cs : List Char) : Option (Term × List Char) :=
  match cs with
  | '<' :: _ => (readIri? cs).map fun (i, rest) => (.iri i, rest)
  | '_' :: _ => (readBlankNode? cs).map fun (b, rest) => (.blankNode b, rest)
  | _ => (readLiteral? cs).map fun (l, rest) => (.literal l, rest)

/-- The triple of a line: three terms and a dot, with blanks between. -/
def readLine? (cs : List Char) : Option Triple := do
  let (subject, rest) ← readTerm? cs
  let s ← subject.subject?
  let (p, rest) ← readIri? (rest.drop 1)
  let (o, rest) ← readTerm? (rest.drop 1)
  if rest = [' ', '.'] then some ⟨s, p, o⟩ else none

/-- The triples of the lines of a text. -/
def read? (text : String) : Option (List Triple) :=
  (text.toList.splitOn '\n').dropLast.mapM readLine?

/-- The canonical lines of triples, each with a line feed. -/
def write (ts : List Triple) : String := String.join (ts.map fun t => t.display ++ "\n")

/-! ## Parts -/

variable {i : Iri} {l : Literal} {t u : Triple} {ts : List Triple}

theorem until?_append {mark : Char} {text : List Char} (h : mark ∉ text) (rest : List Char) :
    until? mark (text ++ mark :: rest) = some (text, rest) := by
  have hbefore : ∀ c ∈ text, (decide (c ≠ mark)) = true := by
    intro c hc
    exact decide_eq_true (ne_of_mem_of_not_mem hc h)
  unfold until?
  rw [List.dropWhile_append_of_pos hbefore, List.takeWhile_append_of_pos hbefore]
  simp

/-- There is no closing bracket within the brackets. -/
theorem readIri?_canonical (h : i.IsClean) (rest : List Char) :
    readIri? (i.canonical ++ rest) = some (i, rest) := by
  have hbracket : '>' ∉ i.text.toList := fun hmem => h '>' hmem (by decide)
  have huntil := until?_append hbracket rest
  simp only [Iri.canonical, List.cons_append, List.append_assoc, List.nil_append, readIri?, huntil]
  simp

theorem readBlankNode?_canonical (b : BlankNode) (rest : List Char) :
    readBlankNode? (b.canonical ++ rest) = some (b.unscoped, rest) := by
  have hlength := b.reference.length_digits
  simp only [BlankNode.canonical, List.cons_append, readBlankNode?, BlankNode.unscoped]
  rw [List.take_append_of_le_length (by omega), List.take_of_length_le (by omega),
    List.drop_append_of_le_length (by omega), List.drop_of_length_le (by omega),
    Uuid.toNat?_digits]
  simp [Uuid.ofNat_toNat]

/-- The escaped form of a character is read as that character. -/
theorem readLexical?_escape_append (c : Char) (cs : List Char) :
    readLexical? (Literal.escape c ++ cs) =
      (readLexical? cs).map fun (lexical, rest) => (c :: lexical, rest) := by
  unfold Literal.escape
  split
  · next h => subst h; simp [readLexical?, unescape]
  · split
    · next h => subst h; simp [readLexical?, unescape]
    · split
      · next h => subst h; simp [readLexical?, unescape]
      · split
        · next h => subst h; simp [readLexical?, unescape]
        · next hbackslash _ _ => simp [readLexical?, hbackslash]

/-- The first quote without a backslash ends the lexical form. -/
theorem readLexical?_flatMap_escape (lexical rest : List Char) :
    readLexical? (lexical.flatMap Literal.escape ++ '"' :: rest) = some (lexical, rest) := by
  induction lexical with
  | nil => simp [readLexical?]
  | cons c lexical ih => simp [readLexical?_escape_append, ih]

/-! ## Terms -/

theorem canonical_plain (lexical : String) : (Literal.plain lexical).canonical =
    '"' :: lexical.toList.flatMap Literal.escape ++ ['"'] := by
  simp [Literal.canonical, LexicalValue.canonical, Literal.parts, Literal.lexical, Literal.language,
    Literal.datatype]

theorem canonical_tagged (lexical language : String) : (Literal.tagged lexical language).canonical =
    '"' :: lexical.toList.flatMap Literal.escape ++ '"' :: '@' :: language.toList := by
  simp [Literal.canonical, LexicalValue.canonical, Literal.parts, Literal.lexical, Literal.language]

theorem canonical_typed (lexical : String) {datatype : Iri} (h : datatype ≠ Vocabulary.string) :
    (Literal.typed lexical datatype).canonical =
      '"' :: lexical.toList.flatMap Literal.escape ++ '"' :: '^' :: '^' :: datatype.canonical := by
  have htext : datatype.text ≠ Vocabulary.string.text := fun heq => h (congrArg Iri.mk heq)
  simp [Literal.canonical, LexicalValue.canonical, Literal.parts, Literal.lexical, Literal.language,
    Literal.datatype, htext, Iri.canonical]

/-- The characters of a stored language tag. -/
theorem mem_language_char {lexical language : String} (h : (Literal.tagged lexical language).Built)
    {c : Char} (hc : c ∈ language.toList) :
    LanguageTag.IsLetter c ∨ LanguageTag.IsDigit c ∨ c = '-' :=
  LanguageTag.mem_grammar_char (LanguageTag.read?_eq_some_iff.1 (Literal.built_iff.1 h)).1 hc

/-- What follows the closing quote tells what a literal is: a language, a datatype, or neither. -/
theorem readLiteral?_canonical (hbuilt : l.Built) (h : l.datatype.IsClean) (rest : List Char) :
    readLiteral? (l.canonical ++ ' ' :: rest) = some (l, ' ' :: rest) := by
  cases l with
  | plain lexical => simp [canonical_plain, readLiteral?, readLexical?_flatMap_escape]
  | tagged lexical language =>
    have hblank : ∀ c ∈ language.toList, (decide (c ≠ ' ')) = true := by
      intro c hc
      apply decide_eq_true
      rintro rfl
      exact absurd (mem_language_char hbuilt hc) (by decide)
    simp only [canonical_tagged, List.cons_append, List.append_assoc, readLiteral?,
      readLexical?_flatMap_escape, Option.bind_eq_bind, Option.bind_some]
    rw [List.takeWhile_append_of_pos hblank, List.dropWhile_append_of_pos hblank]
    simp
  | typed lexical datatype =>
    have hdatatype : readIri? (datatype.canonical ++ ' ' :: rest) = some (datatype, ' ' :: rest) :=
      readIri?_canonical h _
    rw [canonical_typed lexical (Literal.built_iff.1 hbuilt).1]
    simp only [List.cons_append, List.append_assoc, readLiteral?, readLexical?_flatMap_escape,
      Option.bind_eq_bind, Option.bind_some]
    rw [hdatatype]
    simp

theorem exists_canonical_eq_quote (l : Literal) : ∃ cs, l.canonical = '"' :: cs := by
  unfold Literal.canonical LexicalValue.canonical
  split
  · exact ⟨_, rfl⟩
  · split <;> exact ⟨_, rfl⟩

/-- A term is read back, whatever follows the blank after it. -/
theorem readTerm?_canonical {t : Term} (h : t.Over Iri.IsClean) (rest : List Char) :
    readTerm? (t.canonical ++ ' ' :: rest) = some (t.unscoped, ' ' :: rest) := by
  cases t with
  | iri i =>
    have hread := readIri?_canonical h (' ' :: rest)
    simp only [Term.canonical, Iri.canonical, List.cons_append] at hread ⊢
    simp only [readTerm?, hread, Option.map_some]
    rfl
  | blankNode b =>
    have hread := readBlankNode?_canonical b (' ' :: rest)
    simp only [Term.canonical, BlankNode.canonical, List.cons_append] at hread ⊢
    simp only [readTerm?, hread, Option.map_some]
    rfl
  | literal l =>
    obtain ⟨cs, hcs⟩ := exists_canonical_eq_quote l
    have hread := readLiteral?_canonical h.1 h.2 rest
    simp only [Term.canonical, hcs, List.cons_append] at hread ⊢
    simp only [readTerm?, hread, Option.map_some]
    rfl

theorem subject?_unscoped (s : Subject) :
    s.toTerm.unscoped.subject? = some (s.rename BlankNode.unscoped) := by
  cases s <;> rfl

theorem readLine?_canonical (h : t.Over Iri.IsClean) : readLine? t.canonical = some t.unscoped := by
  -- the text of the line from each of the terms on
  have hsubject := readTerm?_canonical h.subject
    (t.predicate.canonical ++ ' ' :: (t.object.canonical ++ [' ', '.']))
  have hpredicate := readIri?_canonical h.predicate (' ' :: (t.object.canonical ++ [' ', '.']))
  have hobject := readTerm?_canonical h.object ['.']
  unfold readLine? Triple.canonical
  simp only [List.append_assoc, List.cons_append, hsubject, hpredicate, hobject,
    subject?_unscoped, Option.bind_eq_bind, Option.bind_some, List.drop_succ_cons, List.drop_zero]
  rfl

/-! ## Lines -/

/-- Whether a character ends a line. -/
def IsLineEnd (c : Char) : Prop := c = '\n' ∨ c = '\r'

instance : DecidablePred IsLineEnd := fun _ => inferInstanceAs (Decidable (_ ∨ _))

section LineEnds

variable {c d : Char}

theorem IsLineEnd.ne (hc : IsLineEnd c) (hd : ¬ IsLineEnd d) : c ≠ d := by
  rintro rfl
  exact hd hc

theorem IsLineEnd.isDelimiter (hc : IsLineEnd c) : Reference.IsDelimiter c := by
  rcases hc with rfl | rfl <;> decide

theorem IsLineEnd.notMem_iri (hc : IsLineEnd c) (h : i.IsClean) : c ∉ i.canonical := by
  have htext : c ∉ i.text.toList := fun hmem => h c hmem hc.isDelimiter
  have hopen : c ≠ '<' := hc.ne (by decide)
  have hclose : c ≠ '>' := hc.ne (by decide)
  simp [Iri.canonical, htext, hopen, hclose]

theorem IsLineEnd.notMem_blankNode (hc : IsLineEnd c) (b : BlankNode) : c ∉ b.canonical := by
  have hdigits : c ∉ b.reference.digits := by
    intro hmem
    have hdigit := Uuid.isDigit_of_mem_digits hmem
    rcases hc with rfl | rfl <;> exact absurd hdigit (by decide)
  have hmark : c ≠ '_' := hc.ne (by decide)
  have hcolon : c ≠ ':' := hc.ne (by decide)
  simp [BlankNode.canonical, hdigits, hmark, hcolon]

theorem IsLineEnd.notMem_escape (hc : IsLineEnd c) (d : Char) : c ∉ Literal.escape d := by
  unfold Literal.escape
  rcases hc with rfl | rfl <;> split_ifs <;> simp_all [eq_comm]

theorem IsLineEnd.notMem_literal (hc : IsLineEnd c) (hbuilt : l.Built) (h : l.datatype.IsClean) :
    c ∉ l.canonical := by
  have hlexical : ∀ lexical : String, c ∉ lexical.toList.flatMap Literal.escape := by
    intro lexical hmem
    obtain ⟨d, -, hd⟩ := List.mem_flatMap.1 hmem
    exact hc.notMem_escape d hd
  have hquote : c ≠ '"' := hc.ne (by decide)
  cases l with
  | plain lexical =>
    simp only [canonical_plain, List.mem_append, List.mem_cons, List.not_mem_nil, hquote, hlexical,
      or_self, not_false_eq_true]
  | tagged lexical language =>
    have hat : c ≠ '@' := hc.ne (by decide)
    have hlanguage : c ∉ language.toList := by
      intro hmem
      have hkind := mem_language_char hbuilt hmem
      rcases hc with rfl | rfl <;> exact absurd hkind (by decide)
    simp only [canonical_tagged, List.mem_append, List.mem_cons, hquote, hlexical, hat, hlanguage,
      or_self, not_false_eq_true]
  | typed lexical datatype =>
    have hcaret : c ≠ '^' := hc.ne (by decide)
    have hdatatype : c ∉ datatype.canonical := hc.notMem_iri h
    simp only [canonical_typed lexical (Literal.built_iff.1 hbuilt).1, List.mem_append,
      List.mem_cons, hquote, hlexical, hcaret, hdatatype, or_self, not_false_eq_true]

theorem IsLineEnd.notMem_term (hc : IsLineEnd c) {t : Term} (h : t.Over Iri.IsClean) :
    c ∉ t.canonical := by
  cases t with
  | iri i => exact hc.notMem_iri h
  | blankNode b => exact hc.notMem_blankNode b
  | literal l => exact hc.notMem_literal h.1 h.2

/-- No line ends early. -/
theorem IsLineEnd.notMem_triple (hc : IsLineEnd c) (h : t.Over Iri.IsClean) : c ∉ t.canonical := by
  have hsubject := hc.notMem_term h.subject
  have hpredicate := hc.notMem_iri h.predicate
  have hobject := hc.notMem_term h.object
  have hblank : c ≠ ' ' := hc.ne (by decide)
  have hdot : c ≠ '.' := hc.ne (by decide)
  simp [Triple.canonical, hsubject, hpredicate, hobject, hblank, hdot]

end LineEnds

/-! ## Texts -/

theorem toList_write (ts : List Triple) :
    (write ts).toList = ts.flatMap fun t => t.canonical ++ ['\n'] := by
  simp [write, String.toList_join, List.flatMap_map, Triple.display]

/-- A text is its lines with line feeds between, and an empty one at the end. -/
theorem flatMap_eq_intercalate (lines : List (List Char)) :
    (lines.flatMap fun line => line ++ ['\n']) = ['\n'].intercalate (lines ++ [[]]) := by
  induction lines with
  | nil => rfl
  | cons line lines ih =>
    have hmore : lines ++ [[]] ≠ [] := by simp
    rw [List.flatMap_cons, ih, List.cons_append, List.intercalate_cons_of_ne_nil hmore]

theorem mapM_readLine?_canonical (h : ∀ t ∈ ts, t.Over Iri.IsClean) :
    (ts.map Triple.canonical).mapM readLine? = some (ts.map Triple.unscoped) := by
  induction ts with
  | nil => rfl
  | cons t ts ih =>
    rw [List.forall_mem_cons] at h
    rw [List.map_cons, List.mapM_cons, readLine?_canonical h.1, ih h.2]
    rfl

/-- The triples of a text are read back. -/
theorem read?_write (h : ∀ t ∈ ts, t.Over Iri.IsClean) :
    read? (write ts) = some (ts.map Triple.unscoped) := by
  have hfeed : ∀ line ∈ ts.map Triple.canonical ++ [[]], '\n' ∉ line := by
    intro line hline
    rcases List.mem_append.1 hline with hline | hline
    · obtain ⟨t, ht, rfl⟩ := List.mem_map.1 hline
      exact IsLineEnd.notMem_triple (.inl rfl) (h t ht)
    · rw [List.mem_singleton.1 hline]
      exact List.not_mem_nil
  have hlines : (write ts).toList.splitOn '\n' = ts.map Triple.canonical ++ [[]] := by
    have hchars := flatMap_eq_intercalate (ts.map Triple.canonical)
    rw [List.flatMap_map, ← toList_write] at hchars
    rw [hchars, List.splitOn_intercalate '\n' hfeed (by simp)]
  unfold read?
  rw [hlines, List.dropLast_concat, mapM_readLine?_canonical h]

/-- Two triples have the same text only if they differ in scopes alone. -/
theorem display_eq_iff (ht : t.Over Iri.IsClean) (hu : u.Over Iri.IsClean) :
    t.display = u.display ↔ t.unscoped = u.unscoped := by
  constructor
  · intro h
    have hread := readLine?_canonical ht
    rw [String.ofList_injective h, readLine?_canonical hu] at hread
    exact (Option.some.inj hread).symm
  · intro h
    unfold Triple.display
    rw [← Triple.canonical_unscoped t, h, Triple.canonical_unscoped]

theorem hasDatatype_parts (l : Literal) (d : Iri) :
    l.parts.hasDatatype [d] = true ↔ l.datatype = d := by
  simp only [LexicalValue.hasDatatype, List.any_cons, List.any_nil, Bool.or_false,
    decide_eq_true_eq]
  constructor
  · intro h
    exact congrArg Iri.mk h.symm
  · rintro rfl
    rfl

/-- A literal that is neither a string nor a floating point number is handed out as its text. -/
theorem object_parts
    (h : l.datatype ∉ [Vocabulary.string, Vocabulary.float, Vocabulary.double]) :
    l.parts.object = .ok (.encoded l.display) := by
  simp only [List.mem_cons, List.not_mem_nil, or_false, not_or] at h
  obtain ⟨hstring, hfloat, hdouble⟩ := h
  unfold LexicalValue.object
  rw [if_neg fun hd => hstring ((hasDatatype_parts l _).1 hd),
    if_neg fun hd => hfloat ((hasDatatype_parts l _).1 hd),
    if_neg fun hd => hdouble ((hasDatatype_parts l _).1 hd)]
  rfl

/-- Canonical lines lose nothing but the scopes of blank nodes. Accepted IRIs have no character that
a line sets apart, and from a text of triples with such IRIs the triples are read back, whatever the
lexical forms of their literals are. So a line does not end early, two triples have the same line
only if they differ in scopes alone, and the text of a literal that is handed out is canonical. -/
theorem lines_lose_only_scopes :
    (∀ text i, Iri.read text = .ok i → i.IsClean) ∧
    (∀ ts : List Triple, (∀ t ∈ ts, t.Over Iri.IsClean) →
      read? (write ts) = some (ts.map Triple.unscoped)) ∧
    (∀ t : Triple, t.Over Iri.IsClean → '\n' ∉ t.display.toList ∧ '\r' ∉ t.display.toList) ∧
    (∀ t u : Triple, t.Over Iri.IsClean → u.Over Iri.IsClean →
      (t.display = u.display ↔ t.unscoped = u.unscoped)) ∧
    (∀ l : Literal, l.datatype ∉ [Vocabulary.string, Vocabulary.float, Vocabulary.double] →
      l.parts.object = .ok (.encoded l.display)) := by
  refine ⟨fun text i h => (Iri.accepted_of_read h).isClean, fun ts => read?_write, fun t h => ?_,
    fun t u => display_eq_iff, fun l => object_parts⟩
  rw [Triple.display, String.toList_ofList]
  exact ⟨IsLineEnd.notMem_triple (.inl rfl) h, IsLineEnd.notMem_triple (.inr rfl) h⟩

/-- A lexical form that looks like the end of a line and a further one, with another scope. -/
theorem lines_lose_only_scopes_of_line_end :
    (∀ t ∈ [(⟨.blankNode ⟨.ofNat 1, .ofNat 2⟩, ⟨"http://example.com/p"⟩,
        .literal (.plain "\\\" .\r\n_:x \"@en")⟩ : Triple)], t.Over Iri.IsClean) ∧
    read? (write [⟨.blankNode ⟨.ofNat 1, .ofNat 2⟩, ⟨"http://example.com/p"⟩,
        .literal (.plain "\\\" .\r\n_:x \"@en")⟩]) =
      some [⟨.blankNode ⟨default, .ofNat 2⟩, ⟨"http://example.com/p"⟩,
        .literal (.plain "\\\" .\r\n_:x \"@en")⟩] := by
  obtain ⟨hclean, hread, -⟩ := lines_lose_only_scopes
  have hpredicate : Iri.Accepted ⟨"http://example.com/p"⟩ := by decide +kernel
  have hstring : Vocabulary.string.Accepted := by decide +kernel
  have hover : ∀ t ∈ [(⟨.blankNode ⟨.ofNat 1, .ofNat 2⟩, ⟨"http://example.com/p"⟩,
      .literal (.plain "\\\" .\r\n_:x \"@en")⟩ : Triple)], t.Over Iri.IsClean := by
    simp only [List.mem_singleton, forall_eq]
    exact ⟨trivial, hclean _ _ hpredicate, .simple _, hclean _ _ hstring⟩
  exact ⟨hover, hread _ hover⟩

end Lines

end Rdf
