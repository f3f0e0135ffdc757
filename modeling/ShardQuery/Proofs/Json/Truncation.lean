import ShardQuery.Proofs.Json.Document

/-!
# Texts Cut Short or Continued

No proper beginning of the text of an object is a document, and behind its end only blanks may
follow. Both rest on how the scanner and the reader take what follows a text that they have
already understood. The scanner goes on behind it, unless it ended with a number, which may be
continued. The reader, with a document completed, takes no further token.

## Main results

* `Json.lex?_append`: the tokens of a text that is continued.
* `Json.expectValue?_append`: the reader behind a completed document.
* `Json.read?_render_append`: what may follow the text of an object.
* `Json.read?_of_prefix`: no proper beginning of the text of an object is a document.
-/

namespace ShardQuery.Json

variable {text rest : List UInt8}

/-! ### Tokens of continued texts -/

/-- A string literal does not depend on what follows it. -/
theorem scanText?_append {pieces : List TextPiece} (h : scanText? text = some (pieces, rest))
    (more : List UInt8) : scanText? (text ++ more) = some (pieces, rest ++ more) := by
  fun_induction scanText? text generalizing pieces rest with
  | case1 => cases h
  | case2 => cases h; rfl
  | case3 a b c d tail value pieces' rest' htail hunit ih =>
      cases h
      simp only [List.cons_append]
      rw [scanText?_unit hunit, ih htail]
      rfl
  | case4 => cases h
  | case5 letter tail _ b pieces' rest' htail hletter ih =>
      cases h
      have hne : letter ≠ 0x75 := by
        rintro rfl
        cases hletter
      simp only [List.cons_append]
      rw [scanText?_escape hne hletter, ih htail]
      rfl
  | case6 => cases h
  | case7 => cases h
  | case8 b tail hquote _ _ hplain pieces' rest' htail ih =>
      cases h
      have hplain := not_or.1 hplain
      rw [List.cons_append, scanText?_octet hquote hplain.2 hplain.1, ih htail]
      rfl
  | case9 => cases h

/-- A run that ends before the end of a list does not depend on what follows the list. -/
theorem takeWhile_append_of_ne_nil {α : Type} {p : α → Bool} {l : List α}
    (h : l.dropWhile p ≠ []) (more : List α) :
    (l ++ more).takeWhile p = l.takeWhile p ∧
      (l ++ more).dropWhile p = l.dropWhile p ++ more := by
  induction l with
  | nil => exact absurd rfl h
  | cons a l ih =>
      rw [List.cons_append, List.takeWhile_cons, List.takeWhile_cons, List.dropWhile_cons,
        List.dropWhile_cons]
      rw [List.dropWhile_cons] at h
      split at h
      · next ha =>
          rw [if_pos ha, if_pos ha, if_pos ha, if_pos ha, (ih h).1, (ih h).2]
          exact ⟨rfl, rfl⟩
      · next ha =>
          rw [if_neg ha, if_neg ha, if_neg ha, if_neg ha]
          exact ⟨rfl, rfl⟩

/-- The whole digits are found alike with more text behind the rest, provided something is left: a
number that runs to the very end could go on. -/
theorem scanWhole?_append {digits : List UInt8} (h : scanWhole? text = some (digits, rest))
    (hrest : rest ≠ []) (more : List UInt8) :
    scanWhole? (text ++ more) = some (digits, rest ++ more) := by
  cases text with
  | nil => cases h
  | cons b tail =>
      by_cases hb : b = 0x30
      · subst hb
        cases h
        rfl
      · have hzero (tail' l : List UInt8) : b :: tail' = 0x30 :: l → False :=
          fun heq => hb (List.cons.inj heq).1
        rw [scanWhole?.eq_2 _ (hzero tail)] at h
        split at h
        · cases h
        · next hsome =>
            cases h
            obtain ⟨htake, hdrop⟩ := takeWhile_append_of_ne_nil hrest more
            rw [List.cons_append, scanWhole?.eq_2 _ (hzero (tail ++ more)), ← List.cons_append,
              htake, hdrop]
            split
            · next hnil => exact absurd hnil hsome
            · rfl

/-- The fraction is found alike with more text behind the rest, under the same proviso. -/
theorem scanFraction?_append {fraction : Option (List UInt8)}
    (h : scanFraction? text = some (fraction, rest)) (hrest : rest ≠ []) (more : List UInt8) :
    scanFraction? (text ++ more) = some (fraction, rest ++ more) := by
  cases text with
  | nil =>
      cases h
      exact absurd rfl hrest
  | cons b tail =>
      by_cases hb : b = 0x2e
      · subst hb
        rw [scanFraction?.eq_1] at h
        split at h
        · cases h
        · next hsome =>
            cases h
            obtain ⟨htake, hdrop⟩ := takeWhile_append_of_ne_nil hrest more
            rw [List.cons_append, scanFraction?.eq_1, htake, hdrop]
            split
            · next hnil => exact absurd hnil hsome
            · rfl
      · have hpoint (tail' l : List UInt8) : b :: tail' = 0x2e :: l → False :=
          fun heq => hb (List.cons.inj heq).1
        rw [scanFraction?.eq_2 _ (hpoint tail)] at h
        cases h
        exact scanFraction?.eq_2 _ (hpoint (tail ++ more))

/-- The digits of an exponent are found alike with more text behind the rest, under the same
proviso. -/
theorem scanExponentDigits?_append {negative : Bool} {exponent : Option Int}
    (h : scanExponentDigits? negative text = some (exponent, rest)) (hrest : rest ≠ [])
    (more : List UInt8) :
    scanExponentDigits? negative (text ++ more) = some (exponent, rest ++ more) := by
  unfold scanExponentDigits? at h
  split at h
  · cases h
  · next hsome =>
      cases h
      obtain ⟨htake, hdrop⟩ := takeWhile_append_of_ne_nil hrest more
      rw [scanExponentDigits?, htake, hdrop]
      split
      · next hnil => exact absurd hnil hsome
      · rfl

/-- An exponent, or the absence of one, is found alike with more text behind the rest. -/
theorem scanExponent?_append {exponent : Option Int}
    (h : scanExponent? text = some (exponent, rest)) (hrest : rest ≠ []) (more : List UInt8) :
    scanExponent? (text ++ more) = some (exponent, rest ++ more) := by
  unfold scanExponent? at h
  split at h
  · next letter tail =>
      split at h
      · next hletter =>
          split at h
          · exact (if_pos hletter).trans (scanExponentDigits?_append h hrest more)
          · exact (if_pos hletter).trans (scanExponentDigits?_append h hrest more)
          · next hplus hminus =>
              cases tail with
              | nil => cases h
              | cons b tail =>
                  rw [List.cons_append, List.cons_append, scanExponent?, if_pos hletter]
                  · exact scanExponentDigits?_append h hrest more
                  · intro digits heq
                    obtain ⟨rfl, -⟩ := List.cons.inj heq
                    exact hplus _ rfl
                  · intro digits heq
                    obtain ⟨rfl, -⟩ := List.cons.inj heq
                    exact hminus _ rfl
      · next hletter =>
          cases h
          unfold scanExponent?
          exact if_neg hletter
  · cases h
    exact absurd rfl hrest

/-- A number that is followed by something does not depend on what follows that. -/
theorem scanUnsigned?_append {negative : Bool} {value : Json}
    (h : scanUnsigned? negative text = some (value, rest)) (hrest : rest ≠ [])
    (more : List UInt8) :
    scanUnsigned? negative (text ++ more) = some (value, rest ++ more) := by
  simp only [scanUnsigned?, Option.bind_eq_bind, Option.bind_eq_some_iff, Prod.exists,
    Option.pure_def, Option.some.injEq, Prod.mk.injEq] at h ⊢
  obtain ⟨whole, afterWhole, hwhole, fraction, afterFraction, hfraction, exponent, _, hexponent,
    rfl, rfl⟩ := h
  have hafterFraction : afterFraction ≠ [] := by
    rintro rfl
    exact hrest (List.length_eq_zero_iff.1 (Nat.le_zero.1 (length_le_of_scanExponent? hexponent)))
  have hafterWhole : afterWhole ≠ [] := by
    rintro rfl
    exact hafterFraction
      (List.length_eq_zero_iff.1 (Nat.le_zero.1 (length_le_of_scanFraction? hfraction)))
  exact ⟨whole, _, scanWhole?_append hwhole hafterWhole more, fraction, _,
    scanFraction?_append hfraction hafterFraction more, exponent, _,
    scanExponent?_append hexponent hrest more, rfl, rfl⟩

/-- A number is found alike with more text behind the rest. A prefix of a document that ends inside
a number is the one case set apart here. -/
theorem scanNumber?_append {value : Json} (h : scanNumber? text = some (value, rest))
    (hrest : rest ≠ []) (more : List UInt8) :
    scanNumber? (text ++ more) = some (value, rest ++ more) := by
  unfold scanNumber? at h
  split at h
  · exact scanUnsigned?_append h hrest more
  · next hsign =>
      cases text with
      | nil => cases h
      | cons b tail =>
          rw [List.cons_append, scanNumber?.eq_2 _ fun _ heq => ?_]
          · exact scanUnsigned?_append h hrest more
          · obtain ⟨rfl, -⟩ := List.cons.inj heq
            exact hsign _ rfl

/-- **A token does not depend on what follows it**, unless it is a number at the end of a text. -/
theorem scanToken?_append {token : Token} (h : scanToken? text = some (token, rest))
    (hend : rest ≠ [] ∨ ∀ value, token ≠ .scalar value) (more : List UInt8) :
    scanToken? (text ++ more) = some (token, rest ++ more) := by
  unfold scanToken? at h
  split at h
  · cases h; rfl
  · cases h; rfl
  · cases h; rfl
  · cases h; rfl
  · cases h; rfl
  · cases h; rfl
  · obtain ⟨⟨pieces, rest'⟩, hscan, heq⟩ := Option.map_eq_some_iff.1 h
    cases heq
    rw [List.cons_append, scanToken?, scanText?_append hscan more]
    rfl
  · cases h; rfl
  · cases h; rfl
  · cases h; rfl
  · obtain ⟨⟨value, rest'⟩, hscan, heq⟩ := Option.map_eq_some_iff.1 h
    cases heq
    have hrest := hend.resolve_right fun hplain => hplain value rfl
    exact scanToken?_of_scanNumber? (scanNumber?_append hscan hrest more)

/-- **The tokens of a text that is continued**, if it does not end with a number: its own, and
those of what follows. -/
theorem lex?_append {tokens : List Token} (h : lex? text = some tokens)
    (hend : ∀ value, tokens.getLast? ≠ some (.scalar value)) (more : List UInt8) :
    lex? (text ++ more) = (lex? more).map (tokens ++ ·) := by
  fun_induction lex? text generalizing tokens with
  | case1 =>
      cases h
      exact (Option.map_id' ..).symm
  | case2 b text hblank ih =>
      rw [List.cons_append, lex?, if_pos hblank]
      exact ih h hend
  | case3 b text hblank token rest hscan _ ih =>
      obtain ⟨tokens', htokens', rfl⟩ := Option.map_eq_some_iff.1 h
      have hends : (rest ≠ [] ∨ ∀ value, token ≠ .scalar value) ∧
          ∀ value, tokens'.getLast? ≠ some (.scalar value) := by
        cases tokens' with
        | nil => exact ⟨.inr fun value heq => hend value (heq ▸ rfl), fun _ => by simp⟩
        | cons token' tokens' =>
            refine ⟨.inl ?_, fun value => List.getLast?_cons_cons ▸ hend value⟩
            rintro rfl
            rw [lex?] at htokens'
            cases htokens'
      obtain ⟨hrest, hend'⟩ := hends
      have htoken := scanToken?_append hscan hrest more
      rw [lex?_of_scanToken? _ htoken, ih htokens' hend', Option.map_map]
      · rfl
      · rintro _ ⟨⟩
        exact Bool.not_eq_true _ ▸ hblank
  | case4 => cases h

/-! ### The reader behind a document -/

/-- **With a document completed, the reader takes no further token**: it goes on with what follows
as behind that document. -/
theorem read_append {j : Json} (more : List Token) :
    (∀ stack tokens, expectValue? stack tokens = some j →
      expectValue? stack (tokens ++ more) = completeValue? j [] more) ∧
    ∀ value stack tokens, completeValue? value stack tokens = some j →
      completeValue? value stack (tokens ++ more) = completeValue? j [] more := by
  apply reads_induct
  case openArray =>
    -- The token behind the bracket does not close the array, and what follows is behind that token.
    intro stack token tokens htoken ih
    rw [List.cons_append, List.cons_append, expectValue?.eq_4]
    · exact ih
    · intro _ heq
      exact htoken (List.cons.inj heq).1
  all_goals
    intros
    simp_all [expectValue?, completeValue?]

/-- Whether tokens end with the end of an array or of an object. -/
def Closes (tokens : List Token) : Prop :=
  tokens.getLast? = some .closeArray ∨ tokens.getLast? = some .closeObject

/-- A token put before others leaves the last of them as it is, so they still end with a closing
bracket. -/
theorem Closes.cons {tokens : List Token} (h : Closes tokens) (token : Token) :
    Closes (token :: tokens) := by
  cases tokens with
  | nil => simp [Closes] at h
  | cons next tokens => exact h

/-- A closing bracket with tokens behind it that end with one, or with nothing behind it, ends with
one. -/
theorem closes_of_end {tokens : List Token} {stack : List Context} {token : Token}
    (h : Closes tokens ∨ stack = [] ∧ tokens = [])
    (htoken : token = .closeArray ∨ token = .closeObject) : Closes (token :: tokens) := by
  obtain h | ⟨-, rfl⟩ := h
  · exact h.cons token
  · exact htoken.imp (congrArg some) (congrArg some)

/-- Inside an open bracket the tokens end with a closing one, since the case of an empty stack is
excluded there. -/
theorem closes_of_nested {tokens : List Token} {context : Context} {stack : List Context}
    {p : Prop} (h : Closes tokens ∨ context :: stack = [] ∧ p) : Closes tokens :=
  h.resolve_right fun hstack => List.cons_ne_nil _ _ hstack.1

/-- What is open when a value is read is closed by the last token. -/
theorem closes_of_read {j : Json} :
    (∀ stack tokens, expectValue? stack tokens = some j →
      Closes tokens ∨ stack = [] ∧ tokens.length = 1) ∧
    ∀ value stack tokens, completeValue? value stack tokens = some j →
      Closes tokens ∨ stack = [] ∧ tokens = [] := by
  apply reads_induct
  case scalar | text =>
    intro _ stack tokens ih
    exact ih.imp (·.cons _) fun ⟨hstack, htokens⟩ => ⟨hstack, htokens ▸ rfl⟩
  case emptyArray | emptyObject =>
    intro stack tokens ih
    exact .inl ((closes_of_end ih (by simp)).cons _)
  case openArray =>
    intro stack token tokens _ ih
    exact .inl ((closes_of_nested ih).cons _)
  case openObject =>
    intro name stack tokens ih
    exact .inl ((((closes_of_nested ih).cons _).cons _).cons _)
  case done => exact .inr ⟨rfl, rfl⟩
  case nextItem =>
    intro value items stack tokens ih
    exact .inl ((closes_of_nested ih).cons _)
  case nextMember =>
    intro value members name next stack tokens ih
    exact .inl ((((closes_of_nested ih).cons _).cons _).cons _)
  case lastItem =>
    intro value items stack tokens ih
    exact .inl (closes_of_end ih (by simp))
  case lastMember =>
    intro value members name stack tokens ih
    exact .inl (closes_of_end ih (by simp))

/-! ### The text of an object -/

/-- The texts without tokens are the blank ones, so a proper prefix without tokens holds nothing of
the document. -/
theorem lex?_eq_nil_iff : lex? text = some [] ↔ ∀ b ∈ text, isBlank b = true := by
  fun_induction lex? text with
  | case1 => simp
  | case2 b text hblank ih => rw [ih, List.forall_mem_cons, and_iff_right hblank]
  | case3 b text hblank token rest hscan _ ih => simp [hblank]
  | case4 b text hblank hscan => simp [hblank]

variable {members : List (String × Json)}

/-- An object goes on behind its text as if nothing was before. -/
theorem lex?_render_object_append (h : IsWritable (.object members)) (more : List UInt8) :
    lex? (utf8Octets (render (.object members)) ++ more) =
      (lex? more).map (tokens (.object members) ++ ·) := by
  have hlex := lex?_render (.object members) [] h delimited_nil
  rw [List.append_nil, lex?, Option.map_some, List.append_nil] at hlex
  refine lex?_append hlex (fun value => ?_) more
  rw [tokens, ← List.cons_append, List.getLast?_concat]
  simp

/-- **Behind the text of an object only blanks may follow.** -/
theorem read?_render_append (h : IsWritable (.object members)) (more : List UInt8) :
    read? (utf8Octets (render (.object members)) ++ more) =
      if more.all isBlank then some (.object members) else none := by
  have hblank : more.all isBlank = true ↔ lex? more = some [] := by
    rw [List.all_eq_true, lex?_eq_nil_iff]
  rw [read?, lex?_render_object_append h]
  cases hmore : lex? more with
  | none =>
      rw [if_neg fun hall => by cases hmore.symm.trans (hblank.1 hall)]
      rfl
  | some further =>
      rw [Option.map_some, Option.bind_some, expectValue?_tokens]
      cases further with
      | nil => rw [if_pos (hblank.2 hmore), completeValue?]
      | cons token further =>
          rw [if_neg fun hall => by cases hmore.symm.trans (hblank.1 hall)]
          rfl

/-- The text of an object stands between braces, and so does that of every token's body: a proper
prefix always lacks the brace that closes it. -/
theorem utf8Octets_render_object (members : List (String × Json)) :
    utf8Octets (render (.object members)) =
      0x7b :: (utf8Octets (renderMembers members) ++ [0x7d]) := by
  rw [render, utf8Octets_append, utf8Octets_append]
  rfl

/-- A document that starts like an object ends with the end of an array or of an object. -/
theorem closes_of_brace {j : Json} {read : List Token} (h : expectValue? [] read = some j)
    (hlex : lex? (0x7b :: text) = some read) : Closes read := by
  rw [lex?_mark rfl rfl] at hlex
  obtain ⟨read, -, rfl⟩ := Option.map_eq_some_iff.1 hlex
  refine (closes_of_read.1 [] _ h).resolve_right fun ⟨_, hlength⟩ => ?_
  obtain rfl : read = [] := List.length_eq_zero_iff.1 (Nat.succ.inj hlength)
  simp [expectValue?] at h

/-- **No proper beginning of the text of an object is a document.** -/
theorem read?_of_prefix (h : IsWritable (.object members))
    (hcut : text <+: utf8Octets (render (.object members)))
    (hne : text ≠ utf8Octets (render (.object members))) : read? text = none := by
  obtain ⟨more, hmore⟩ := hcut
  refine Option.eq_none_iff_forall_ne_some.2 fun j hsome => ?_
  obtain ⟨read, hread, hj⟩ := Option.bind_eq_some_iff.1 hsome
  cases text with
  | nil =>
      rw [lex?] at hread
      cases hread
      simp [expectValue?] at hj
  | cons b text =>
      -- The tokens of the beginning are the first tokens of the object, and complete a document.
      -- So what is missing has no tokens, but it has the last brace.
      obtain rfl : b = 0x7b := by
        rw [utf8Octets_render_object] at hmore
        exact (List.cons.inj hmore).1
      have hcloses := closes_of_brace hj hread
      have hplain : ∀ value, read.getLast? ≠ some (.scalar value) := by
        intro value hlast
        obtain heq | heq := hcloses <;> cases hlast.symm.trans heq
      have hlex := lex?_append hread hplain more
      have hobject := lex?_render_object_append h []
      rw [List.append_nil, lex?, Option.map_some, List.append_nil, ← hmore, hlex] at hobject
      obtain ⟨further, hfurther, heq⟩ := Option.map_eq_some_iff.1 hobject
      have hcomplete := (read_append further).1 [] read hj
      have htokens := expectValue?_tokens (.object members) [] []
      rw [List.append_nil, ← heq, hcomplete] at htokens
      cases further with
      | cons token further => simp [completeValue?] at htokens
      | nil =>
          have hlast := congrArg List.getLast? hmore
          rw [utf8Octets_render_object, ← List.cons_append, List.getLast?_concat] at hlast
          cases hcut : more.getLast? with
          | none =>
              obtain rfl := List.getLast?_eq_none_iff.1 hcut
              exact hne ((List.append_nil _).symm.trans hmore)
          | some last =>
              rw [List.getLast?_append, hcut] at hlast
              obtain rfl := Option.some.inj hlast
              cases lex?_eq_nil_iff.1 hfurther _ (List.mem_of_getLast? hcut)

end ShardQuery.Json
