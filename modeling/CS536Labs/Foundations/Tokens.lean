import CS536Labs.Foundations.CString
import Mathlib.Data.List.Chain
import Mathlib.Data.List.DropRight

/-!
# The tokens of a text that is read in pieces

`tokens` splits a text at delimiters. When the text comes in pieces and each piece is split by
itself, the tokens are those of the whole text exactly when no piece ends inside a token.

* `tokens_append_of_breaks` and `exists_tokens_append_of_not_breaks`: the two cases of one boundary.
* `flatMap_tokens_isPrefix_iff`: any number of pieces, with a rest that is not split yet.
-/

namespace CS536Labs

variable {p : UInt8 → Bool}

@[simp] theorem tokens_nil : tokens p [] = [] := rfl

/-- A delimiter separates the tokens before it from those behind it. -/
theorem tokens_append_cons (s t : List UInt8) {d : UInt8} (hd : p d = true) :
    tokens p (s ++ d :: t) = tokens p s ++ tokens p t := by
  rw [tokens, List.splitOnP_append_cons s t hd, List.filter_append]
  rfl

theorem tokens_cons (t : List UInt8) {d : UInt8} (hd : p d = true) :
    tokens p (d :: t) = tokens p t :=
  tokens_append_cons [] t hd

theorem tokens_concat (s : List UInt8) {d : UInt8} (hd : p d = true) :
    tokens p (s ++ [d]) = tokens p s := by
  rw [tokens_append_cons s [] hd, tokens_nil, List.append_nil]

theorem tokens_replicate_append {d : UInt8} (hd : p d = true) (n : ℕ) (s : List UInt8) :
    tokens p (List.replicate n d ++ s) = tokens p s := by
  induction n with
  | zero => rfl
  | succ n ih => rw [List.replicate_succ, List.cons_append, tokens_cons _ hd, ih]

/-- A text without delimiters is one token. -/
theorem tokens_eq_singleton {s : List UInt8} (hne : s ≠ []) (hs : ∀ c ∈ s, p c = false) :
    tokens p s = [s] := by
  rw [tokens, List.splitOnP_eq_singleton hs, List.filter_singleton]
  cases s with
  | nil => exact absurd rfl hne
  | cons c s => rfl

/-- Words between delimiters are read back. -/
theorem tokens_intercalate {d : UInt8} (hd : p d = true) {words : List (List UInt8)}
    (h : ∀ word ∈ words, word ≠ [] ∧ ∀ c ∈ word, p c = false) :
    tokens p ([d].intercalate words) = words := by
  induction words with
  | nil => rfl
  | cons word words ih =>
    obtain ⟨hne, hword⟩ := h word List.mem_cons_self
    have ih := ih fun word hmem => h word (List.mem_cons_of_mem _ hmem)
    cases words with
    | nil => rw [List.intercalate_singleton, tokens_eq_singleton hne hword]
    | cons word' words =>
      rw [List.intercalate_cons_cons, List.append_assoc, List.singleton_append,
        tokens_append_cons _ _ hd, ih, tokens_eq_singleton hne hword]
      rfl

theorem mem_of_mem_splitOnP {s piece : List UInt8} (h : piece ∈ s.splitOnP p) :
    ∀ c ∈ piece, c ∈ s ∧ p c = false := by
  induction s generalizing piece with
  | nil =>
    rw [List.mem_singleton.mp h]
    exact nofun
  | cons d s ih =>
    rw [List.splitOnP_cons_eq_if_modifyHead] at h
    split_ifs at h with hd
    · rcases List.mem_cons.mp h with rfl | h
      · exact nofun
      · exact fun c hc => (ih h c hc).imp_left (List.mem_cons_of_mem d)
    · cases hpieces : s.splitOnP p with
      | nil => exact absurd hpieces (List.splitOnP_ne_nil p s)
      | cons first rest =>
        rw [hpieces] at ih h
        rcases List.mem_cons.mp h with rfl | h
        · intro c hc
          rcases List.mem_cons.mp hc with rfl | hc
          · exact ⟨List.mem_cons_self, Bool.eq_false_iff.mpr hd⟩
          · exact (ih List.mem_cons_self c hc).imp_left (List.mem_cons_of_mem d)
        · exact fun c hc =>
            (ih (List.mem_cons_of_mem _ h) c hc).imp_left (List.mem_cons_of_mem d)

/-- A token is a non-empty text of the bytes that are no delimiters. -/
theorem mem_of_mem_tokens {s token : List UInt8} (h : token ∈ tokens p s) :
    token ≠ [] ∧ ∀ c ∈ token, c ∈ s ∧ p c = false := by
  obtain ⟨hmem, hne⟩ := List.mem_filter.mp h
  refine ⟨?_, mem_of_mem_splitOnP hmem⟩
  rintro rfl
  cases hne

/-- Between the two texts stands a delimiter, or one of them is empty. -/
def Breaks (p : UInt8 → Bool) (s t : List UInt8) : Prop :=
  ∀ c ∈ s.getLast?, ∀ d ∈ t.head?, p c = true ∨ p d = true

/-- **A boundary between tokens.** -/
theorem tokens_append_of_breaks {s t : List UInt8} (h : Breaks p s t) :
    tokens p (s ++ t) = tokens p s ++ tokens p t := by
  cases t with
  | nil => rw [List.append_nil, tokens_nil, List.append_nil]
  | cons d t =>
    rcases List.eq_nil_or_concat' s with rfl | ⟨s, c, rfl⟩
    · rfl
    · rcases h c (by simp) d rfl with hc | hd
      · rw [List.append_assoc, List.singleton_append, tokens_append_cons s _ hc, tokens_concat s hc]
      · rw [tokens_append_cons _ t hd, tokens_cons t hd]

/-- What ends with a delimiter, if anything. -/
theorem breaks_of_getLast? {s : List UInt8} (h : ∀ c ∈ s.getLast?, p c = true) (t : List UInt8) :
    Breaks p s t := fun c hc _ _ => .inl (h c hc)

theorem breaks_of_head? {t : List UInt8} (h : ∀ d ∈ t.head?, p d = true) (s : List UInt8) :
    Breaks p s t := fun _ _ d hd => .inr (h d hd)

/-- A text that does not end with a delimiter ends with a word. -/
theorem exists_last_word {s : List UInt8} {c : UInt8} (hc : c ∈ s.getLast?) (hcp : p c = false) :
    ∃ before word, s = before ++ word ∧ word ≠ [] ∧ (∀ c ∈ word, p c = false) ∧
      ∀ c ∈ before.getLast?, p c = true := by
  refine ⟨s.rdropWhile fun c => !p c, s.rtakeWhile fun c => !p c,
    List.rdropWhile_append_rtakeWhile.symm, ?_, ?_, ?_⟩
  · have hs : s ≠ [] := by
      rintro rfl
      cases hc
    rw [Option.mem_def, List.getLast?_eq_some_getLast hs] at hc
    rw [ne_eq, List.rtakeWhile_eq_nil_iff]
    intro hnil
    exact hnil hs (by rw [Option.some.inj hc, hcp]; rfl)
  · intro d hd
    simpa using List.mem_rtakeWhile_imp hd
  · intro d hd
    have hne : s.rdropWhile (fun c => !p c) ≠ [] := by
      intro hnil
      rw [hnil] at hd
      cases hd
    have hlast := List.rdropWhile_last_not (fun c => !p c) s hne
    rw [Option.mem_def, List.getLast?_eq_some_getLast hne] at hd
    rw [Option.some.inj hd] at hlast
    simpa using hlast

/-- A text that does not start with a delimiter starts with a word. -/
theorem exists_first_word {t : List UInt8} {d : UInt8} (hd : d ∈ t.head?) (hdp : p d = false) :
    ∃ word after, t = word ++ after ∧ word ≠ [] ∧ (∀ c ∈ word, p c = false) ∧
      ∀ d ∈ after.head?, p d = true := by
  refine ⟨t.takeWhile fun c => !p c, t.dropWhile fun c => !p c,
    List.takeWhile_append_dropWhile.symm, ?_, ?_, ?_⟩
  · cases t with
    | nil => cases hd
    | cons d' t =>
      obtain rfl : d' = d := Option.some.inj hd
      rw [List.takeWhile_cons_of_pos (by rw [hdp]; rfl)]
      exact List.cons_ne_nil _ _
  · intro c hc
    simpa using List.mem_takeWhile_imp hc
  · intro c hc
    have hnot := List.head?_dropWhile_not (fun c => !p c) t
    rw [Option.mem_def.mp hc] at hnot
    simpa using hnot

/-- **A boundary inside a token.** The last token of the first text goes on in the second. -/
theorem exists_tokens_append_of_not_breaks {s t : List UInt8} (h : ¬ Breaks p s t) :
    ∃ before word more after, more ≠ [] ∧ more <+: t ∧ tokens p s = before ++ [word] ∧
      tokens p (s ++ t) = before ++ (word ++ more) :: after := by
  simp only [Breaks, not_forall, not_or, Bool.not_eq_true] at h
  obtain ⟨c, hc, d, hd, hcp, hdp⟩ := h
  obtain ⟨before, word, rfl, hword, hwordp, hbefore⟩ := exists_last_word hc hcp
  obtain ⟨more, after, rfl, hmore, hmorep, hafter⟩ := exists_first_word hd hdp
  have hjoin : ∀ c ∈ word ++ more, p c = false := by
    intro c hc
    exact (List.mem_append.mp hc).elim (hwordp c) (hmorep c)
  have hjoinne : word ++ more ≠ [] := List.append_ne_nil_of_left_ne_nil hword _
  refine ⟨tokens p before, word, more, tokens p after, hmore, List.prefix_append _ _, ?_, ?_⟩
  · rw [tokens_append_of_breaks (breaks_of_getLast? hbefore _), tokens_eq_singleton hword hwordp]
  · have hassoc : (before ++ word) ++ (more ++ after) = before ++ ((word ++ more) ++ after) := by
      simp only [List.append_assoc]
    rw [hassoc, tokens_append_of_breaks (breaks_of_getLast? hbefore _),
      tokens_append_of_breaks (breaks_of_head? hafter _), tokens_eq_singleton hjoinne hjoin]
    rfl

/-! ## Tokens of a string in an array -/

/-- The tokens of an array, around the one that the terminator of the string belongs to. -/
theorem exists_tokens_cString (hp : p 0 = false) {array : List UInt8} (h : 0 ∈ array) :
    ∃ before token after last, 0 ∈ token ∧ tokens p array = before ++ token :: after ∧
      tokens p (cString array) = before ++ last := by
  obtain ⟨rest, hsplit⟩ := exists_eq_cString_append h
  generalize cString array = s at hsplit
  subst hsplit
  by_cases hbreaks : Breaks p s (0 :: rest)
  · obtain ⟨word, after, hword, hne, hwordp, hafter⟩ :=
      exists_first_word (t := 0 :: rest) (d := 0) rfl hp
    have htokens : tokens p (0 :: rest) = word :: tokens p after := by
      rw [hword, tokens_append_of_breaks (breaks_of_head? hafter word),
        tokens_eq_singleton hne hwordp]
      rfl
    refine ⟨tokens p s, word, tokens p after, [], ?_, ?_, (List.append_nil _).symm⟩
    · cases word with
      | nil => exact absurd rfl hne
      | cons c word =>
        rw [(List.cons.inj hword).1]
        exact List.mem_cons_self
    · rw [tokens_append_of_breaks hbreaks, htokens]
  · obtain ⟨before, word, more, after, hmore, hprefix, hs, hst⟩ :=
      exists_tokens_append_of_not_breaks hbreaks
    refine ⟨before, word ++ more, after, [word], ?_, hst, hs⟩
    cases more with
    | nil => exact absurd rfl hmore
    | cons c more =>
      rw [(List.cons_prefix_cons.mp hprefix).1]
      exact List.mem_append_right _ List.mem_cons_self

/-- The first tokens of a string are those of the array, when they have no NUL. -/
theorem take_tokens_cString (hp : p 0 = false) {array : List UInt8} {n : ℕ}
    (h : ∀ token ∈ (tokens p array).take n, 0 ∉ token) :
    (tokens p (cString array)).take n = (tokens p array).take n := by
  by_cases hnul : 0 ∈ array
  · obtain ⟨before, token, after, last, htoken, harray, hstring⟩ := exists_tokens_cString hp hnul
    have hlen : n ≤ before.length := by
      by_contra hlt
      refine h token ?_ htoken
      rw [harray, List.take_append]
      obtain ⟨m, hm⟩ := Nat.exists_eq_succ_of_ne_zero (Nat.sub_ne_zero_of_lt (Nat.lt_of_not_le hlt))
      rw [hm, List.take_succ_cons]
      exact List.mem_append_right _ List.mem_cons_self
    rw [harray, hstring, List.take_append_of_le_length hlen, List.take_append_of_le_length hlen]
  · rw [cString_eq_self hnul]

/-! ## Any number of pieces -/

/-- The boundary behind a piece is a boundary in the text. -/
theorem breaks_head_iff {pieces : List (List UInt8)} (hne : ∀ s ∈ pieces, s ≠ [])
    (s rest : List UInt8) :
    (∀ t ∈ (pieces ++ [rest]).head?, Breaks p s t) ↔ Breaks p s (pieces.flatten ++ rest) := by
  cases pieces with
  | nil =>
    constructor
    · intro h
      exact h rest rfl
    · intro h t ht
      obtain rfl : rest = t := Option.some.inj ht
      exact h
  | cons t pieces =>
    have hhead : (t ++ (pieces.flatten ++ rest)).head? = t.head? :=
      List.head?_append_of_ne_nil _ (hne t List.mem_cons_self)
    rw [List.flatten_cons, List.append_assoc]
    constructor
    · intro h c hc d hd
      rw [hhead] at hd
      exact h t rfl c hc d hd
    · intro h t' ht' c hc d hd
      obtain rfl : t = t' := Option.some.inj ht'
      rw [← hhead] at hd
      exact h c hc d hd

/-- The tokens of all pieces, when each ends between tokens. -/
theorem flatMap_tokens_append {pieces : List (List UInt8)} (hne : ∀ s ∈ pieces, s ≠ [])
    {rest : List UInt8} (h : (pieces ++ [rest]).IsChain (Breaks p)) :
    pieces.flatMap (tokens p) ++ tokens p rest = tokens p (pieces.flatten ++ rest) := by
  induction pieces with
  | nil => rfl
  | cons s pieces ih =>
    have hne' : ∀ s ∈ pieces, s ≠ [] := fun s hs => hne s (List.mem_cons_of_mem _ hs)
    rw [List.cons_append, List.isChain_cons, breaks_head_iff hne'] at h
    rw [List.flatMap_cons, List.flatten_cons, List.append_assoc, List.append_assoc,
      tokens_append_of_breaks h.1, ih hne' h.2]

/-- **Splitting pieces.** The tokens of the pieces are the first tokens of the whole text exactly
when each piece ends between tokens. -/
theorem flatMap_tokens_isPrefix_iff {pieces : List (List UInt8)} (hne : ∀ s ∈ pieces, s ≠ [])
    (rest : List UInt8) :
    pieces.flatMap (tokens p) <+: tokens p (pieces.flatten ++ rest) ↔
      (pieces ++ [rest]).IsChain (Breaks p) := by
  induction pieces with
  | nil => simp
  | cons s pieces ih =>
    have hne' : ∀ s ∈ pieces, s ≠ [] := fun s hs => hne s (List.mem_cons_of_mem _ hs)
    rw [List.cons_append, List.isChain_cons, breaks_head_iff hne', ← ih hne', List.flatMap_cons,
      List.flatten_cons, List.append_assoc]
    by_cases h : Breaks p s (pieces.flatten ++ rest)
    · rw [tokens_append_of_breaks h, List.prefix_append_right_inj]
      exact ⟨fun hprefix => ⟨h, hprefix⟩, And.right⟩
    · refine iff_of_false ?_ fun hand => h hand.1
      obtain ⟨before, word, more, after, hmore, -, hs, hst⟩ :=
        exists_tokens_append_of_not_breaks h
      rw [hs, hst, List.append_assoc, List.prefix_append_right_inj, List.singleton_append,
        List.cons_prefix_cons, List.self_eq_append_right]
      exact fun hand => hmore hand.1

end CS536Labs
