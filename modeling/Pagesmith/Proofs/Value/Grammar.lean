import Pagesmith.Proofs.Table
import Pagesmith.Proofs.Value.Decimal

/-!
The grammar of JSON text, and the reader on it. `ReadsAs limit depth v t` says that the text `t` is read as the
value `v`: with any white space between its parts, no whole number beyond the limit, and `depth` lists and objects
one inside the other. `Writes limit v t` says that it is a spelling of `v` in which no key stands twice. The
reader gives back the value of every text of the grammar, so a text writes at most one value.
-/

namespace Pagesmith.Value.Reader

/-- Nothing but white space. -/
def IsSpace (w : List Char) : Prop := ∀ c ∈ w, isSpace c = true

theorem isSpace_nil : IsSpace [] := by simp [IsSpace]

mutual

/-- The text writes the value. -/
inductive Writes (limit : Option Nat) : Value → List Char → Prop where
  | scalar {v : Value} {t : List Char} : scalar limit t = .ok (v, []) → Writes limit v t
  | text {s : List Text.Letter} {body : List Char} :
      SpellsAll body s → Writes limit (ofLetters s) ('"' :: (body ++ ['"']))
  | noItems {w : List Char} : IsSpace w → Writes limit (.list []) ('[' :: (w ++ [']']))
  | list {xs : List Value} {w t : List Char} :
      IsSpace w → WritesItems limit xs t → Writes limit (.list xs) ('[' :: (w ++ t))
  | noEntries {w : List Char} : IsSpace w → Writes limit (.dict []) ('\x7b' :: (w ++ ['\x7d']))
  | dict {es : List (String × Value)} {w t : List Char} :
      IsSpace w → WritesEntries limit es t → (es.map (·.1)).Nodup →
      Writes limit (.dict es) ('\x7b' :: (w ++ t))

/-- The text writes the items and the bracket behind them. -/
inductive WritesItems (limit : Option Nat) : List Value → List Char → Prop where
  | last {v : Value} {t w : List Char} :
      Writes limit v t → IsSpace w → WritesItems limit [v] (t ++ (w ++ [']']))
  | more {v : Value} {vs : List Value} {t w w' r : List Char} :
      Writes limit v t → IsSpace w → IsSpace w' → WritesItems limit vs r →
      WritesItems limit (v :: vs) (t ++ (w ++ ',' :: (w' ++ r)))

/-- The text writes the entries and the brace behind them. -/
inductive WritesEntries (limit : Option Nat) : List (String × Value) → List Char → Prop where
  | last {k : List Text.Letter} {v : Value} {body w w' t w'' : List Char} :
      SpellsAll body k → IsSpace w → IsSpace w' → Writes limit v t → IsSpace w'' →
      WritesEntries limit [(keyOfLetters k, v)]
        ('"' :: (body ++ '"' :: (w ++ ':' :: (w' ++ (t ++ (w'' ++ ['\x7d']))))))
  | more {k : List Text.Letter} {v : Value} {es : List (String × Value)} {body w w' t w'' w₃ r : List Char} :
      SpellsAll body k → IsSpace w → IsSpace w' → Writes limit v t → IsSpace w'' →
      IsSpace w₃ → WritesEntries limit es r →
      WritesEntries limit ((keyOfLetters k, v) :: es)
        ('"' :: (body ++ '"' :: (w ++ ':' :: (w' ++ (t ++ (w'' ++ ',' :: (w₃ ++ r)))))))

end

/-- Behind an opening quote the characters are read as the text, and what follows the closing quote is left. -/
def Quotes (body : List Char) (s : List Text.Letter) : Prop :=
  ∀ rest, string (body ++ '"' :: rest) = .ok (s, rest)

theorem SpellsAll.quotes {body : List Char} {s : List Text.Letter} (h : SpellsAll body s) : Quotes body s :=
  string_spellsAll h

mutual

/-- The text is read as the value. A key that stands in an object several times keeps its first place and takes its
last value. -/
inductive ReadsAs (limit : Option Nat) : (depth : Nat) → Value → List Char → Prop where
  | scalar {v : Value} {t : List Char} : scalar limit t = .ok (v, []) → ReadsAs limit 0 v t
  | text {s : List Text.Letter} {body : List Char} :
      Quotes body s → ReadsAs limit 0 (ofLetters s) ('"' :: (body ++ ['"']))
  | noItems {w : List Char} : IsSpace w → ReadsAs limit 1 (.list []) ('[' :: (w ++ [']']))
  | list {n : Nat} {xs : List Value} {w t : List Char} :
      IsSpace w → ReadsAsItems limit n xs t → ReadsAs limit (n + 1) (.list xs) ('[' :: (w ++ t))
  | noEntries {w : List Char} : IsSpace w → ReadsAs limit 1 (.dict []) ('\x7b' :: (w ++ ['\x7d']))
  | dict {n : Nat} {es merged : List (String × Value)} {w t : List Char} :
      IsSpace w → ReadsAsEntries limit n es t → Table.Merges es merged →
      ReadsAs limit (n + 1) (.dict merged) ('\x7b' :: (w ++ t))

/-- The text is read as the items and the bracket behind them. -/
inductive ReadsAsItems (limit : Option Nat) : (depth : Nat) → List Value → List Char → Prop where
  | last {n : Nat} {v : Value} {t w : List Char} :
      ReadsAs limit n v t → IsSpace w → ReadsAsItems limit n [v] (t ++ (w ++ [']']))
  | more {n m : Nat} {v : Value} {vs : List Value} {t w w' r : List Char} :
      ReadsAs limit n v t → IsSpace w → IsSpace w' → ReadsAsItems limit m vs r →
      ReadsAsItems limit (max n m) (v :: vs) (t ++ (w ++ ',' :: (w' ++ r)))

/-- The text is read as the entries, as they stand in it, and the brace behind them. -/
inductive ReadsAsEntries (limit : Option Nat) : (depth : Nat) → List (String × Value) → List Char → Prop where
  | last {n : Nat} {k : List Text.Letter} {v : Value} {body w w' t w'' : List Char} :
      Quotes body k → IsSpace w → IsSpace w' → ReadsAs limit n v t → IsSpace w'' →
      ReadsAsEntries limit n [(keyOfLetters k, v)]
        ('"' :: (body ++ '"' :: (w ++ ':' :: (w' ++ (t ++ (w'' ++ ['\x7d']))))))
  | more {n m : Nat} {k : List Text.Letter} {v : Value} {es : List (String × Value)}
      {body w w' t w'' w₃ r : List Char} :
      Quotes body k → IsSpace w → IsSpace w' → ReadsAs limit n v t → IsSpace w'' →
      IsSpace w₃ → ReadsAsEntries limit m es r →
      ReadsAsEntries limit (max n m) ((keyOfLetters k, v) :: es)
        ('"' :: (body ++ '"' :: (w ++ ':' :: (w' ++ (t ++ (w'' ++ ',' :: (w₃ ++ r)))))))

end

theorem Writes.str {limit : Option Nat} {s : String} {body : List Char}
    (h : SpellsAll body (Text.Loose.ofString s)) : Writes limit (.str s) ('"' :: (body ++ ['"'])) := by
  simpa using @Writes.text limit _ _ h

theorem Writes.torn {limit : Option Nat} {t : Text.Torn} {body : List Char} (h : SpellsAll body t.letters) :
    Writes limit (.torn t) ('"' :: (body ++ ['"'])) := by
  simpa using @Writes.text limit _ _ h

theorem skip_append {w : List Char} (space : IsSpace w) {c : Char} (h : isSpace c = false)
    (r : List Char) : skip (w ++ c :: r) = c :: r := by
  rw [skip, List.dropWhile_append_of_pos space, List.dropWhile_cons, h]
  rfl

theorem delimits_space {w : List Char} (space : IsSpace w) {c : Char} (h : isDelimiter c = true)
    (r : List Char) : Delimits (w ++ c :: r) := by
  match w with
  | [] => simpa [Delimits] using h
  | s :: w =>
    have blank := space s (by simp)
    simp [Delimits, isDelimiter, blank]

/-- A character that a value can start with. -/
def Opens (c : Char) : Prop :=
  isSpace c = false ∧ c ≠ ']' ∧ c ≠ '\x7d' ∧ c.toNat ≠ 0xfeff

theorem opens_digit {d : Char} (digit : d.isDigit = true) :
    Opens d ∧ d ≠ '"' ∧ d ≠ '[' ∧ d ≠ '\x7b' := by
  have other {c : Char} (h : c.isDigit = false) : d ≠ c := by
    rintro rfl
    exact absurd digit (by simp [h])
  have low := (Char.isDigit_iff_toNat.1 digit).2
  refine ⟨⟨?_, other rfl, other rfl, ?_⟩, other rfl, other rfl, other rfl⟩
  · simp only [isSpace, Bool.or_eq_false_iff, beq_eq_false_iff_ne]
    exact ⟨⟨⟨other rfl, other rfl⟩, other rfl⟩, other rfl⟩
  · have : '9'.toNat < 0xfeff := by decide
    omega

theorem scalar_opens {limit : Option Nat} {t : List Char} {p : Value × List Char}
    (read : scalar limit t = .ok p) :
    ∃ c r, t = c :: r ∧ Opens c ∧ c ≠ '"' ∧ c ≠ '[' ∧ c ≠ '\x7b' := by
  rw [scalar.eq_def] at read
  split at read
  case h_7 =>
    obtain ⟨d, r, digit, rfl | rfl⟩ := numeral_start read
    · exact ⟨d, r, rfl, opens_digit digit⟩
    · exact ⟨'-', d :: r, rfl, by simp [Opens, isSpace], by decide, by decide, by decide⟩
  all_goals exact ⟨_, _, rfl, by simp [Opens, isSpace], by decide, by decide, by decide⟩

theorem ReadsAs.opens {limit : Option Nat} {n : Nat} {v : Value} {t : List Char}
    (h : ReadsAs limit n v t) :
    ∃ c r, t = c :: r ∧ Opens c := by
  cases h with
  | scalar read =>
    obtain ⟨c, r, rfl, opens, -⟩ := scalar_opens read
    exact ⟨c, r, rfl, opens⟩
  | text | noItems | list | noEntries | dict => exact ⟨_, _, rfl, by simp [Opens, isSpace]⟩

theorem readValue_scalar {limit : Option Nat} {v : Value} {t : List Char}
    (read : scalar limit t = .ok (v, [])) (fuel : Nat) {rest : List Char} (h : Delimits rest) :
    readValue limit (fuel + 1) (t ++ rest) = .ok (v, rest) := by
  have whole := scalar_append h read
  obtain ⟨c, r, rfl, -, quote, bracket, brace⟩ := scalar_opens read
  rw [List.cons_append] at whole ⊢
  rw [readValue]
  · exact whole
  all_goals
    intro s same
    simp_all

theorem ReadsAsItems.opens {limit : Option Nat} {n : Nat} {vs : List Value} {t : List Char}
    (h : ReadsAsItems limit n vs t) : ∃ c r, t = c :: r ∧ Opens c := by
  cases h with
  | last value | more value =>
    obtain ⟨c, r, rfl, opens⟩ := value.opens
    exact ⟨c, _, rfl, opens⟩

theorem ReadsAsEntries.opens {limit : Option Nat} {n : Nat} {es : List (String × Value)}
    {t : List Char} (h : ReadsAsEntries limit n es t) : ∃ r, t = '"' :: r := by
  cases h <;> exact ⟨_, rfl⟩

section Steps

variable {limit : Option Nat} {fuel : Nat} {w w' : List Char}

theorem readValue_text {s : List Text.Letter} {body : List Char} (quoted : Quotes body s)
    (rest : List Char) :
    readValue limit (fuel + 1) ('"' :: (body ++ '"' :: rest)) = .ok (ofLetters s, rest) := by
  simp only [readValue, quoted _, bind, Except.bind]
  rfl

theorem readValue_noItems (space : IsSpace w) (rest : List Char) :
    readValue limit (fuel + 1) ('[' :: (w ++ ']' :: rest)) = .ok (.list [], rest) := by
  simp only [readValue, skip_append space (by decide : isSpace ']' = false)]

theorem readValue_list {c : Char} {r rest : List Char} {xs : List Value} (space : IsSpace w)
    (opens : Opens c) (items : readItems limit fuel (c :: r) = .ok (xs, rest)) :
    readValue limit (fuel + 1) ('[' :: (w ++ c :: r)) = .ok (.list xs, rest) := by
  obtain ⟨notSpace, notBracket, -, -⟩ := opens
  simp only [readValue, skip_append space notSpace]
  split
  · simp_all
  · rw [items]
    rfl

theorem readValue_noEntries (space : IsSpace w) (rest : List Char) :
    readValue limit (fuel + 1) ('\x7b' :: (w ++ '\x7d' :: rest)) = .ok (.dict [], rest) := by
  simp only [readValue, skip_append space (by decide : isSpace '\x7d' = false)]

theorem readValue_dict {r rest : List Char} {es : List (String × Value)} (space : IsSpace w)
    (entries : readEntries limit fuel [] ('"' :: r) = .ok (es, rest)) :
    readValue limit (fuel + 1) ('\x7b' :: (w ++ '"' :: r)) = .ok (.dict es, rest) := by
  simp only [readValue, skip_append space (by decide : isSpace '"' = false)]
  change (readEntries limit fuel [] ('"' :: r) >>= _) = _
  rw [entries]
  rfl

theorem readItems_last {v : Value} {t rest : List Char}
    (read : readValue limit fuel (t ++ (w ++ ']' :: rest)) = .ok (v, w ++ ']' :: rest))
    (space : IsSpace w) :
    readItems limit (fuel + 1) (t ++ (w ++ ']' :: rest)) = .ok ([v], rest) := by
  simp only [readItems, read, bind, Except.bind, skip_append space (by decide : isSpace ']' = false)]
  rfl

theorem readItems_more {v : Value} {vs : List Value} {t r rest : List Char} {c : Char}
    (read : readValue limit fuel (t ++ (w ++ ',' :: (w' ++ c :: r))) =
      .ok (v, w ++ ',' :: (w' ++ c :: r)))
    (space : IsSpace w) (space' : IsSpace w') (opens : isSpace c = false)
    (items : readItems limit fuel (c :: r) = .ok (vs, rest)) :
    readItems limit (fuel + 1) (t ++ (w ++ ',' :: (w' ++ c :: r))) = .ok (v :: vs, rest) := by
  simp only [readItems, read, bind, Except.bind, skip_append space (by decide : isSpace ',' = false),
    skip_append space' opens, items]
  rfl

theorem readEntries_last {found : List (String × Value)} {k : List Text.Letter} {v : Value}
    {body w'' t rest : List Char} (quoted : Quotes body k) (space : IsSpace w)
    (space' : IsSpace w') (opens : ∃ c r, t = c :: r ∧ Opens c)
    (read : readValue limit fuel (t ++ (w'' ++ '\x7d' :: rest)) = .ok (v, w'' ++ '\x7d' :: rest))
    (space'' : IsSpace w'') :
    readEntries limit (fuel + 1) found
      ('"' :: (body ++ '"' :: (w ++ ':' :: (w' ++ (t ++ (w'' ++ '\x7d' :: rest)))))) =
      .ok (Table.insert (keyOfLetters k) v found, rest) := by
  obtain ⟨c, r, rfl, opens⟩ := opens
  rw [List.cons_append] at read ⊢
  simp only [readEntries, quoted _, bind, Except.bind,
    skip_append space (by decide : isSpace ':' = false), skip_append space' opens.1, read,
    skip_append space'' (by decide : isSpace '\x7d' = false)]
  rfl

theorem readEntries_more {found es : List (String × Value)} {k : List Text.Letter} {v : Value}
    {body w'' w₃ t r rest : List Char} (quoted : Quotes body k) (space : IsSpace w)
    (space' : IsSpace w') (opens : ∃ c r, t = c :: r ∧ Opens c)
    (read : readValue limit fuel (t ++ (w'' ++ ',' :: (w₃ ++ '"' :: r))) =
      .ok (v, w'' ++ ',' :: (w₃ ++ '"' :: r)))
    (space'' : IsSpace w'') (space₃ : IsSpace w₃)
    (more : readEntries limit fuel (Table.insert (keyOfLetters k) v found) ('"' :: r) = .ok (es, rest)) :
    readEntries limit (fuel + 1) found
      ('"' :: (body ++ '"' :: (w ++ ':' :: (w' ++ (t ++ (w'' ++ ',' :: (w₃ ++ '"' :: r))))))) =
      .ok (es, rest) := by
  obtain ⟨c, s, rfl, opens⟩ := opens
  rw [List.cons_append] at read ⊢
  simp only [readEntries, quoted _, bind, Except.bind,
    skip_append space (by decide : isSpace ':' = false), skip_append space' opens.1, read,
    skip_append space'' (by decide : isSpace ',' = false),
    skip_append space₃ (by decide : isSpace '"' = false), more]

end Steps

mutual

theorem ReadsAs.read {limit : Option Nat} {n : Nat} {v : Value} {t : List Char} (h : ReadsAs limit n v t)
    (fuel : Nat) (enough : t.length ≤ fuel) {rest : List Char} (delimits : Delimits rest) :
    readValue limit fuel (t ++ rest) = .ok (v, rest) := by
  obtain ⟨fuel, rfl⟩ : ∃ n, fuel = n + 1 := by
    obtain ⟨c, r, rfl, -⟩ := h.opens
    exact ⟨fuel - 1, by simp at enough; omega⟩
  match h with
  | .scalar read => exact readValue_scalar read fuel delimits
  | .text quoted => simpa using readValue_text quoted rest
  | .noItems space => simpa using readValue_noItems space rest
  | .list space items =>
    have all := items.read fuel (by simp at enough; omega) rest
    obtain ⟨c, r, rfl, opens⟩ := items.opens
    simpa using readValue_list space opens all
  | .noEntries space => simpa using readValue_noEntries space rest
  | .dict space entries merges =>
    rw [merges.eq]
    have all := entries.read fuel [] (by simp at enough; omega) rest
    obtain ⟨r, rfl⟩ := entries.opens
    simpa using readValue_dict space all

theorem ReadsAsItems.read {limit : Option Nat} {n : Nat} {vs : List Value} {t : List Char}
    (h : ReadsAsItems limit n vs t) (fuel : Nat) (enough : t.length ≤ fuel) (rest : List Char) :
    readItems limit fuel (t ++ rest) = .ok (vs, rest) := by
  obtain ⟨fuel, rfl⟩ : ∃ n, fuel = n + 1 := by
    obtain ⟨c, r, rfl, -⟩ := h.opens
    exact ⟨fuel - 1, by simp at enough; omega⟩
  match h with
  | .last value space =>
    have first := value.read fuel (by simp at enough; omega)
      (delimits_space space (by decide : isDelimiter ']' = true) rest)
    simpa using readItems_last first space
  | @ReadsAsItems.more _ _ _ _ _ _ _ w' _ value space space' items =>
    have more := items.read fuel (by simp at enough; omega) rest
    obtain ⟨c, r, rfl, opens⟩ := items.opens
    have first := value.read fuel (by simp at enough; omega)
      (delimits_space space (by decide : isDelimiter ',' = true) (w' ++ c :: r ++ rest))
    simp only [List.append_assoc, List.cons_append] at first more ⊢
    exact readItems_more first space space' opens.1 more

theorem ReadsAsEntries.read {limit : Option Nat} {n : Nat} {es : List (String × Value)} {t : List Char}
    (h : ReadsAsEntries limit n es t) (fuel : Nat) (found : List (String × Value))
    (enough : t.length ≤ fuel) (rest : List Char) :
    readEntries limit fuel found (t ++ rest) = .ok (Table.insertAll found es, rest) := by
  obtain ⟨fuel, rfl⟩ : ∃ n, fuel = n + 1 := by
    obtain ⟨r, rfl⟩ := h.opens
    exact ⟨fuel - 1, by simp at enough; omega⟩
  match h with
  | .last quoted space space' value space'' =>
    have first := value.read fuel (by simp at enough; omega)
      (delimits_space space'' (by decide : isDelimiter '\x7d' = true) rest)
    simpa [Table.insertAll] using readEntries_last quoted space space' value.opens first space''
  | @ReadsAsEntries.more _ _ _ k v _ _ _ _ _ _ w₃ _ quoted space space' value space'' space₃ entries =>
    have more := entries.read fuel (Table.insert (keyOfLetters k) v found) (by simp at enough; omega) rest
    obtain ⟨r, rfl⟩ := entries.opens
    have first := value.read fuel (by simp at enough; omega)
      (delimits_space space'' (by decide : isDelimiter ',' = true) (w₃ ++ '"' :: r ++ rest))
    simp only [List.append_assoc, List.cons_append] at first more ⊢
    exact readEntries_more quoted space space' value.opens first space'' space₃ more

end

end Pagesmith.Value.Reader

namespace Pagesmith.Value

mutual

/-- How many lists and objects of a value lie one inside the other. -/
def nesting : Value → Nat
  | list xs | tuple xs => nestingOfItems xs + 1
  | dict es => nestingOfEntries es + 1
  | _ => 0

/-- The nesting of the items of a sequence. -/
def nestingOfItems : List Value → Nat
  | [] => 0
  | x :: r => max (nesting x) (nestingOfItems r)

/-- The nesting of the values of a mapping. -/
def nestingOfEntries : List (String × Value) → Nat
  | [] => 0
  | (_, x) :: r => max (nesting x) (nestingOfEntries r)

end

theorem nestingOfItems_le {n : Nat} {xs : List Value} (h : ∀ x ∈ xs, x.nesting ≤ n) : nestingOfItems xs ≤ n := by
  induction xs with
  | nil => exact Nat.zero_le n
  | cons x r ih =>
    obtain ⟨first, rest⟩ := List.forall_mem_cons.1 h
    exact max_le first (ih rest)

theorem nestingOfEntries_le {n : Nat} {es : List (String × Value)} (h : ∀ e ∈ es, e.2.nesting ≤ n) :
    nestingOfEntries es ≤ n := by
  induction es with
  | nil => exact Nat.zero_le n
  | cons e r ih =>
    obtain ⟨first, rest⟩ := List.forall_mem_cons.1 h
    exact max_le first (ih rest)

end Pagesmith.Value

namespace Pagesmith.Value.Reader

theorem nesting_ofLetters (s : List Text.Letter) : (ofLetters s).nesting = 0 := by
  unfold ofLetters
  dsimp only
  split <;> rfl

theorem IsToken.nesting {limit : Option Nat} {v : Value} (h : IsToken limit v) : v.nesting = 0 := by
  cases h <;> rfl

mutual

/-- A spelling of a value is read as it, with the nesting of the value itself. -/
theorem Writes.reads {limit : Option Nat} {v : Value} {t : List Char} (h : Writes limit v t) :
    ReadsAs limit v.nesting v t := by
  match h with
  | .scalar read =>
    rw [(scalar_token read).nesting]
    exact .scalar read
  | .text spelt =>
    rw [nesting_ofLetters]
    exact .text spelt.quotes
  | .noItems space => exact .noItems space
  | .list space items =>
    rw [nesting]
    exact .list space items.reads
  | .noEntries space => exact .noEntries space
  | @Writes.dict _ es _ _ space entries distinct =>
    have merges := Table.merges_insertAll es
    rw [Table.insertAll_nil distinct] at merges
    rw [nesting]
    exact .dict space entries.reads merges

theorem WritesItems.reads {limit : Option Nat} {vs : List Value} {t : List Char} (h : WritesItems limit vs t) :
    ReadsAsItems limit (nestingOfItems vs) vs t := by
  match h with
  | .last value space =>
    rw [nestingOfItems, nestingOfItems, Nat.max_zero]
    exact .last value.reads space
  | .more value space space' items => exact .more value.reads space space' items.reads

theorem WritesEntries.reads {limit : Option Nat} {es : List (String × Value)} {t : List Char}
    (h : WritesEntries limit es t) : ReadsAsEntries limit (nestingOfEntries es) es t := by
  match h with
  | .last spelt space space' value space'' =>
    rw [nestingOfEntries, nestingOfEntries, Nat.max_zero]
    exact .last spelt.quotes space space' value.reads space''
  | .more spelt space space' value space'' space₃ entries =>
    exact .more spelt.quotes space space' value.reads space'' space₃ entries.reads

end

mutual

/-- A value is nested no deeper than the text it is read from; what stands under a key that comes again is lost. -/
theorem ReadsAs.nesting_le {limit : Option Nat} {n : Nat} {v : Value} {t : List Char} (h : ReadsAs limit n v t) :
    v.nesting ≤ n := by
  match h with
  | .scalar read => exact (scalar_token read).nesting.le
  | .text _ => exact (nesting_ofLetters _).le
  | .noItems _ | .noEntries _ => exact le_rfl
  | .list _ items => exact Nat.succ_le_succ (nestingOfItems_le items.nesting_le)
  | .dict _ entries merges =>
    refine Nat.succ_le_succ (nestingOfEntries_le fun e mem => entries.nesting_le e ?_)
    rw [merges.eq] at mem
    exact (Table.mem_insertAll mem).resolve_left List.not_mem_nil

theorem ReadsAsItems.nesting_le {limit : Option Nat} {n : Nat} {vs : List Value} {t : List Char}
    (h : ReadsAsItems limit n vs t) : ∀ v ∈ vs, v.nesting ≤ n := by
  match h with
  | .last value _ => exact List.forall_mem_singleton.2 value.nesting_le
  | .more value _ _ items =>
    exact List.forall_mem_cons.2 ⟨le_max_of_le_left value.nesting_le,
      fun v mem => le_max_of_le_right (items.nesting_le v mem)⟩

theorem ReadsAsEntries.nesting_le {limit : Option Nat} {n : Nat} {es : List (String × Value)} {t : List Char}
    (h : ReadsAsEntries limit n es t) : ∀ e ∈ es, e.2.nesting ≤ n := by
  match h with
  | .last _ _ _ value _ => exact List.forall_mem_singleton.2 value.nesting_le
  | .more _ _ _ value _ _ entries =>
    exact List.forall_mem_cons.2 ⟨le_max_of_le_left value.nesting_le,
      fun e mem => le_max_of_le_right (entries.nesting_le e mem)⟩

end

/-- No byte order mark stands in front of a value. -/
theorem start_noMark {w cs r : List Char} {d : Char} (space : IsSpace w) (opens : ∀ c ∈ cs.head?, Opens c)
    (start : w ++ cs = d :: r) : (d.toNat == 0xfeff) = false := by
  cases w with
  | nil =>
    obtain rfl : cs = d :: r := start
    simpa using (opens d rfl).2.2.2
  | cons c w =>
    obtain ⟨rfl, -⟩ := List.cons.inj start
    have blank := space c List.mem_cons_self
    simp only [isSpace, Bool.or_eq_true, beq_iff_eq] at blank
    obtain ((rfl | rfl) | rfl) | rfl := blank <;> rfl

/-- White space around a value is not read. -/
theorem document_reads {limit : Option Nat} {n : Nat} {v : Value} {w t w' : List Char} (space : IsSpace w)
    (h : ReadsAs limit n v t) (space' : IsSpace w') : document limit (w ++ (t ++ w')) = .ok v := by
  obtain ⟨c, r, rfl, opens⟩ := h.opens
  have start : skip (w ++ (c :: r ++ w')) = c :: r ++ w' := skip_append space opens.1 (r ++ w')
  have delimits : Delimits w' := by
    intro d mem
    rw [isDelimiter, space' d (List.mem_of_mem_head? mem)]
    rfl
  have whole := h.read (2 * (w ++ (c :: r ++ w')).length + 2) (by simp; omega) delimits
  have behind : skip w' = [] := List.dropWhile_eq_nil_iff.2 space'
  obtain ⟨first, more, text⟩ : ∃ d s, w ++ (c :: r ++ w') = d :: s := by
    cases w <;> exact ⟨_, _, rfl⟩
  have mark := start_noMark space (by rintro _ ⟨⟩; exact opens) text
  rw [text] at start whole ⊢
  simp only [document, mark, start, whole, behind, bind, Except.bind, Bool.false_eq_true, if_false]
  rfl

/-- White space behind a value is not read. -/
theorem document_writes_space {limit : Option Nat} {v : Value} {t w : List Char}
    (h : Writes limit v t) (space : IsSpace w) : document limit (t ++ w) = .ok v :=
  document_reads isSpace_nil h.reads space

theorem document_writes {limit : Option Nat} {v : Value} {t : List Char} (h : Writes limit v t) :
    document limit t = .ok v := by
  have whole := document_writes_space h isSpace_nil
  rwa [List.append_nil] at whole

/-- A text writes at most one value. -/
theorem Writes.unique {limit : Option Nat} {v w : Value} {t : List Char} (h : Writes limit v t)
    (h' : Writes limit w t) : v = w :=
  Except.ok.inj ((document_writes h).symm.trans (document_writes h'))

end Pagesmith.Value.Reader
