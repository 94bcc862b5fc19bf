import CS536Labs.Foundations.Numerals
import CS536Labs.Foundations.Tokens
import CS536Labs.Lab4.AccessControl
import Mathlib.Data.List.Forall2

/-!
# Reading `acl.dat`

`load_public_keys` reads at most 1024 bytes of the file and takes the tokens in pairs, an address
and a key. It neither looks whether the file goes on behind them nor counts the entries.

* `loadPublicKeys_eq` is what it returns for the tokens of the bytes it has read.
* `readsWhole_iff`: the file was read as a whole exactly when the cut drops no token, the keys are
  decimal numbers and what is read of each has its value, or the list is unbalanced with and without
  the cut.
* `staysInside_iff`: the stores stay inside the table exactly when there are no more than 200 tokens
  and each address leaves room for its terminator.
-/

namespace CS536Labs.Lab4

/-- The tokens of a text. -/
def aclTokens (s : List UInt8) : List (List UInt8) := tokens isAclDelimiter s

/-- The tokens of the bytes that `fread` stores. -/
def readTokens (content : List UInt8) : List (List UInt8) :=
  aclTokens (cString (content.take 1024))

/-- The addresses and the keys. -/
def pairs {α : Type} : List α → List (α × α)
  | a :: b :: rest => (a, b) :: pairs rest
  | _ => []

/-- The key that is stored for a token. -/
def keyValue (key : List UInt8) : UInt32 := UInt32.ofNat (strtoul key)

/-- The entry that is stored for a pair. -/
def entryOf (pair : List UInt8 × List UInt8) : PublicKey :=
  ⟨strncpy pair.1 inetAddrstrlen, keyValue pair.2⟩

/-- The entry holds the address, if it fits with its terminator, and the 32-bit value of the key,
which is a decimal number. -/
structure Holds (pair : List UInt8 × List UInt8) (entry : PublicKey) : Prop where
  ip : pair.1.length < inetAddrstrlen → cString entry.ip = pair.1
  decimal : ∀ c ∈ pair.2, isDigit c = true
  pubkey : entry.pubkey = UInt32.ofNat (decimalValue pair.2)

/-- The result is -1 for an unbalanced file, and otherwise the list of its entries. -/
structure ReadsWhole (content : List UInt8) : Prop where
  unbalanced : (aclTokens content).length % 2 = 1 → loadPublicKeys (some content) = some none
  balanced : (aclTokens content).length % 2 = 0 →
    ∃ entries, loadPublicKeys (some content) = some (some entries) ∧
      List.Forall₂ Holds (pairs (aclTokens content)) entries

/-- The key is a decimal number, and what is read of it has its 32-bit value when `ULONG_MAX` stands
for the numbers above it. -/
structure KeyKept (pair read : List UInt8 × List UInt8) : Prop where
  decimal : ∀ c ∈ pair.2, isDigit c = true
  value : decimalValue pair.2 % 2 ^ 32 = min (decimalValue read.2) (2 ^ 64 - 1) % 2 ^ 32

/-- The tokens that were read are as many as those of the file, and their keys are kept; or both
lists are unbalanced. -/
def CutHarmless (read whole : List (List UInt8)) : Prop :=
  (read.length % 2 = 1 ∧ whole.length % 2 = 1) ∨
    (whole.length % 2 = 0 ∧ read.length = whole.length ∧
      List.Forall₂ KeyKept (pairs whole) (pairs read))

/-- A store to the table. -/
inductive AclStore
  | ip (publicKeyIdx : ℕ) (field : List UInt8)
  | pubkey (publicKeyIdx : ℕ) (pubkey : UInt32)

/-- The entry that the store goes to. -/
def AclStore.publicKeyIdx : AclStore → ℕ
  | .ip publicKeyIdx _ | .pubkey publicKeyIdx _ => publicKeyIdx

/-- The stores of the loop over the tokens. The address of an unbalanced list is stored, too. -/
def storeEntries : ℕ → List (List UInt8) → List AclStore
  | _, [] => []
  | publicKeyIdx, [ip] => [.ip publicKeyIdx (strncpy ip inetAddrstrlen)]
  | publicKeyIdx, ip :: key :: rest =>
    .ip publicKeyIdx (strncpy ip inetAddrstrlen) :: .pubkey publicKeyIdx (keyValue key) ::
      storeEntries (publicKeyIdx + 1) rest

/-- The stores of `load_public_keys`. -/
def aclStores (content : List UInt8) : List AclStore := storeEntries 0 (readTokens content)

/-- The tokens that are stored as addresses. -/
def ipTokens : List (List UInt8) → List (List UInt8)
  | [] => []
  | [ip] => [ip]
  | ip :: _ :: rest => ip :: ipTokens rest

/-- The stores go to entries of the table, the size that is returned is one of a table, and the
addresses are terminated. -/
structure StaysInside (content : List UInt8) : Prop where
  index : ∀ s ∈ aclStores content, s.publicKeyIdx < maxPublicKeysSize
  size : ∀ entries, loadPublicKeys (some content) = some (some entries) →
    entries.length ≤ maxPublicKeysSize
  terminated : ∀ publicKeyIdx field, .ip publicKeyIdx field ∈ aclStores content → 0 ∈ field

/-! ## The loop over the tokens -/

/-- **What the loop returns**, from an entry of the table on. -/
theorem loadEntries_eq {publicKeyIdx : ℕ} (hidx : publicKeyIdx ≤ maxPublicKeysSize)
    (ts : List (List UInt8)) :
    loadEntries publicKeyIdx ts =
      if publicKeyIdx + (ts.length + 1) / 2 ≤ maxPublicKeysSize then
        some (if ts.length % 2 = 0 then some ((pairs ts).map entryOf) else none)
      else none := by
  fun_induction loadEntries publicKeyIdx ts with
  | case1 publicKeyIdx => rw [if_pos (by simpa using hidx)]; rfl
  | case2 publicKeyIdx ip hlt =>
    rw [List.length_singleton, if_pos (by omega)]
    rfl
  | case3 publicKeyIdx ip hlt =>
    rw [List.length_singleton, if_neg (by omega)]
  | case4 publicKeyIdx ip key rest hlt ih =>
    have hroom : publicKeyIdx + 1 + (rest.length + 1) / 2 ≤ maxPublicKeysSize ↔
        publicKeyIdx + ((ip :: key :: rest).length + 1) / 2 ≤ maxPublicKeysSize := by
      rw [List.length_cons, List.length_cons]
      omega
    have hparity : rest.length % 2 = 0 ↔ (ip :: key :: rest).length % 2 = 0 := by
      rw [List.length_cons, List.length_cons]
      omega
    rw [ih hlt]
    simp only [hroom, hparity]
    split_ifs <;> rfl
  | case5 publicKeyIdx ip key rest hlt =>
    rw [if_neg]
    rw [List.length_cons, List.length_cons]
    omega

/-- The table has room for 200 tokens. -/
theorem room_iff (n : ℕ) : 0 + (n + 1) / 2 ≤ maxPublicKeysSize ↔ n ≤ 200 := by
  rw [maxPublicKeysSize]
  omega

/-- **What `load_public_keys` returns.** -/
theorem loadPublicKeys_eq (content : List UInt8) :
    loadPublicKeys (some content) =
      if (readTokens content).length ≤ 200 then
        some (if (readTokens content).length % 2 = 0 then
          some ((pairs (readTokens content)).map entryOf) else none)
      else none := by
  have heq := loadEntries_eq (Nat.zero_le maxPublicKeysSize) (readTokens content)
  simp only [room_iff] at heq
  exact heq

/-! ## The file and what was read of it -/

theorem pairs_append {α : Type} {xs : List α} (h : xs.length % 2 = 0) (ys : List α) :
    pairs (xs ++ ys) = pairs xs ++ pairs ys := by
  fun_induction pairs xs with
  | case1 a b rest ih =>
    rw [List.length_cons, List.length_cons] at h
    rw [List.cons_append, List.cons_append, pairs, ih (by omega), List.cons_append]
  | case2 xs hxs =>
    match xs with
    | [] => rfl
    | [a] => cases h
    | a :: b :: rest => exact absurd rfl (hxs a b rest)

theorem length_pairs {α : Type} (xs : List α) : (pairs xs).length = xs.length / 2 := by
  fun_induction pairs xs with
  | case1 a b rest ih =>
    rw [List.length_cons, ih, List.length_cons, List.length_cons]
    omega
  | case2 xs hxs =>
    match xs with
    | [] | [a] => simp
    | a :: b :: rest => exact absurd rfl (hxs a b rest)

/-- An even number of tokens ends with a pair. -/
theorem exists_last_pair {α : Type} {xs : List α} (h : xs.length % 2 = 0) (hne : xs ≠ []) :
    ∃ init a b, xs = init ++ [a, b] ∧ init.length % 2 = 0 := by
  rcases List.eq_nil_or_concat' xs with rfl | ⟨xs, b, rfl⟩
  · exact absurd rfl hne
  · rcases List.eq_nil_or_concat' xs with rfl | ⟨init, a, rfl⟩
    · cases h
    · refine ⟨init, a, b, List.append_assoc _ _ _, ?_⟩
      simp only [List.length_append, List.length_singleton] at h
      omega

variable {content : List UInt8}

theorem notMem_of_mem_aclTokens (hnul : 0 ∉ content) : ∀ t ∈ aclTokens content, 0 ∉ t := by
  intro t ht hmem
  exact hnul ((mem_of_mem_tokens ht).2 0 hmem).1

theorem readTokens_eq (hnul : 0 ∉ content) :
    readTokens content = aclTokens (content.take 1024) := by
  rw [readTokens, cString_eq_self fun hmem => hnul (List.mem_of_mem_take hmem)]

/-- **The cut.** The tokens that were read are the first ones of the file, or the last of them is
only the start of one. -/
theorem aclTokens_take (content : List UInt8) (n : ℕ) :
    (∃ rest, aclTokens content = aclTokens (content.take n) ++ rest) ∨
      ∃ before word more after, aclTokens (content.take n) = before ++ [word] ∧
        aclTokens content = before ++ (word ++ more) :: after := by
  by_cases h : Breaks isAclDelimiter (content.take n) (content.drop n)
  · refine .inl ⟨aclTokens (content.drop n), ?_⟩
    rw [aclTokens, ← List.take_append_drop n content, tokens_append_of_breaks h,
      List.take_append_drop]
    rfl
  · obtain ⟨before, word, more, after, -, -, hread, hwhole⟩ :=
      exists_tokens_append_of_not_breaks h
    rw [List.take_append_drop] at hwhole
    exact .inr ⟨before, word, more, after, hread, hwhole⟩

/-- The two lists agree up to the last token, if they are equally long. -/
theorem exists_common (content : List UInt8) (n : ℕ)
    (hlen : (aclTokens (content.take n)).length = (aclTokens content).length) :
    aclTokens (content.take n) = aclTokens content ∨ ∃ before word more,
      aclTokens (content.take n) = before ++ [word] ∧
        aclTokens content = before ++ [word ++ more] := by
  rcases aclTokens_take content n with ⟨rest, hwhole⟩ | ⟨before, word, more, after, hread, hwhole⟩
  · rw [hwhole, List.length_append] at hlen
    have hrest : rest = [] := List.length_eq_zero_iff.mp (by omega)
    exact .inl (by rw [hwhole, hrest, List.append_nil])
  · rw [hread, hwhole] at hlen
    simp only [List.length_append, List.length_cons, List.length_nil] at hlen
    have hafter : after = [] := List.length_eq_zero_iff.mp (by omega)
    exact .inr ⟨before, word, more, hread, by rw [hwhole, hafter]⟩

/-! ## The list as a whole -/

/-- What was read of a pair: the address, and a part of the key. -/
structure ReadOf (pair read : List UInt8 × List UInt8) : Prop where
  ip : read.1 = pair.1
  key : read.2 <+: pair.2
  noNul : 0 ∉ pair.1

theorem forall₂_readOf_self {ts : List (List UInt8)} (hnul : ∀ t ∈ ts, 0 ∉ t) :
    List.Forall₂ ReadOf (pairs ts) (pairs ts) := by
  fun_induction pairs ts with
  | case1 ip key rest ih =>
    refine .cons ⟨rfl, List.prefix_refl _, hnul ip List.mem_cons_self⟩ (ih fun t ht => ?_)
    exact hnul t (by simp [ht])
  | case2 => exact .nil

/-- Equally many tokens make the same pairs, up to the end of the last key. -/
theorem forall₂_readOf {read whole : List (List UInt8)} (hnul : ∀ t ∈ whole, 0 ∉ t)
    (heven : whole.length % 2 = 0)
    (h : read = whole ∨ ∃ before word more,
      read = before ++ [word] ∧ whole = before ++ [word ++ more]) :
    List.Forall₂ ReadOf (pairs whole) (pairs read) := by
  rcases h with rfl | ⟨before, word, more, rfl, rfl⟩
  · exact forall₂_readOf_self hnul
  · obtain ⟨init, ip, key, heq, hinit⟩ := exists_last_pair heven (by simp)
    have heq : before ++ [word ++ more] = (init ++ [ip]) ++ [key] := by
      rw [heq, List.append_assoc]
      rfl
    obtain ⟨rfl, -⟩ := List.append_inj' heq rfl
    simp only [List.append_assoc, List.singleton_append, pairs_append hinit]
    have hself := forall₂_readOf_self fun t (ht : t ∈ init) => hnul t (by simp [ht])
    exact List.rel_append hself (.cons ⟨rfl, List.prefix_append _ _, hnul ip (by simp)⟩ .nil)

/-- What is stored holds the pair, if and only if what was read keeps its key. -/
theorem ReadOf.holds_iff {pair read : List UInt8 × List UInt8} (h : ReadOf pair read) :
    Holds pair (entryOf read) ↔ KeyKept pair read := by
  have hip : pair.1.length < inetAddrstrlen → cString (entryOf read).ip = pair.1 := by
    intro hlen
    rw [← h.ip] at hlen ⊢
    exact cString_strncpy (h.ip ▸ h.noNul) hlen
  have hvalue : (∀ c ∈ pair.2, isDigit c = true) →
      ((entryOf read).pubkey = UInt32.ofNat (decimalValue pair.2) ↔
        decimalValue pair.2 % 2 ^ 32 = min (decimalValue read.2) (2 ^ 64 - 1) % 2 ^ 32) := by
    intro hdigits
    have hread : strtoul read.2 = min (decimalValue read.2) (2 ^ 64 - 1) :=
      strtoul_digits fun c hc => hdigits c (h.key.subset hc)
    rw [entryOf, keyValue, hread, ← UInt32.toNat_inj, UInt32.toNat_ofNat', UInt32.toNat_ofNat']
    exact eq_comm
  constructor
  · intro hholds
    exact ⟨hholds.decimal, (hvalue hholds.decimal).mp hholds.pubkey⟩
  · intro hkept
    exact ⟨hip, hkept.decimal, (hvalue hkept.decimal).mpr hkept.value⟩

/-- Two relations that agree on the pairs of a third one. -/
theorem forall₂_congr_of {α β : Type} {R S T : α → β → Prop} {xs : List α} {ys : List β}
    (h : List.Forall₂ T xs ys) (hiff : ∀ x y, T x y → (R x y ↔ S x y)) :
    List.Forall₂ R xs ys ↔ List.Forall₂ S xs ys := by
  induction h with
  | nil => simp
  | cons hxy _ ih => rw [List.forall₂_cons, List.forall₂_cons, hiff _ _ hxy, ih]

/-- The stored entries fit the file, if and only if its keys are kept. -/
theorem forall₂_holds_iff {read whole : List (List UInt8)}
    (h : List.Forall₂ ReadOf (pairs whole) (pairs read)) :
    List.Forall₂ Holds (pairs whole) ((pairs read).map entryOf) ↔
      List.Forall₂ KeyKept (pairs whole) (pairs read) := by
  rw [List.forall₂_map_right_iff]
  exact forall₂_congr_of h fun _ _ => ReadOf.holds_iff

/-- **The whole list.** For every file without NUL bytes: `load_public_keys` returns what the file
says, if and only if the bytes it reads have no more than 200 tokens and the cut is harmless. -/
theorem readsWhole_iff (hnul : 0 ∉ content) :
    ReadsWhole content ↔ (aclTokens (content.take 1024)).length ≤ 200 ∧
      CutHarmless (aclTokens (content.take 1024)) (aclTokens content) := by
  have hload := loadPublicKeys_eq content
  rw [readTokens_eq hnul] at hload
  have hholds_iff : (aclTokens content).length % 2 = 0 →
      (aclTokens (content.take 1024)).length = (aclTokens content).length →
      (List.Forall₂ Holds (pairs (aclTokens content))
          ((pairs (aclTokens (content.take 1024))).map entryOf) ↔
        List.Forall₂ KeyKept (pairs (aclTokens content))
          (pairs (aclTokens (content.take 1024)))) := by
    intro heven hlen
    exact forall₂_holds_iff (forall₂_readOf (notMem_of_mem_aclTokens hnul) heven
      (exists_common content 1024 hlen))
  constructor
  · intro h
    rcases Nat.mod_two_eq_zero_or_one (aclTokens content).length with heven | hodd
    · obtain ⟨entries, hentries, hholds⟩ := h.balanced heven
      rw [hload] at hentries
      split_ifs at hentries with hle hread
      · simp only [Option.some.injEq] at hentries
        subst hentries
        have hlen := hholds.length_eq
        rw [List.length_map, length_pairs, length_pairs] at hlen
        have hlen : (aclTokens (content.take 1024)).length = (aclTokens content).length := by omega
        exact ⟨hle, .inr ⟨heven, hlen, (hholds_iff heven hlen).mp hholds⟩⟩
      · simp at hentries
    · have hnone := h.unbalanced hodd
      rw [hload] at hnone
      split_ifs at hnone with hle hread
      · simp at hnone
      · exact ⟨hle, .inl ⟨by omega, hodd⟩⟩
  · rintro ⟨hle, ⟨hread, hodd⟩ | ⟨heven, hlen, hkept⟩⟩
    · rw [if_pos hle, if_neg (by omega)] at hload
      exact ⟨fun _ => hload, fun heven => absurd heven (by omega)⟩
    · have hread : (aclTokens (content.take 1024)).length % 2 = 0 := by omega
      rw [if_pos hle, if_pos hread] at hload
      exact ⟨fun hodd => absurd hodd (by omega),
        fun _ => ⟨_, hload, (hholds_iff heven hlen).mpr hkept⟩⟩

/-- The file `10.0.0.1 5` is read. -/
theorem readsWhole_oneEntryAcl : ReadsWhole oneEntryAcl :=
  (readsWhole_iff (by decide)).mpr ⟨by decide, .inr ⟨by decide, by decide,
    .cons ⟨List.forall_mem_singleton.mpr rfl, by decide⟩ .nil⟩⟩

/-- A file of 1025 bytes: blanks, the address `a` and the key 12. -/
def longAcl : List UInt8 := List.replicate 1021 0x20 ++ [0x61, 0x20, 0x31, 0x32]

/-- The cut is in the key, and the key 1 is installed. -/
theorem not_readsWhole_longAcl :
    0 ∉ longAcl ∧ aclTokens longAcl = [[0x61], [0x31, 0x32]] ∧
      loadPublicKeys (some longAcl) = some (some [⟨strncpy [0x61] inetAddrstrlen, 1⟩]) ∧
      ¬ ReadsWhole longAcl := by
  have hnul : 0 ∉ longAcl := by
    rw [longAcl, List.mem_append, List.mem_replicate]
    decide
  have hwhole : aclTokens longAcl = [[0x61], [0x31, 0x32]] := by
    rw [aclTokens, longAcl, tokens_replicate_append rfl]
    rfl
  have hread : readTokens longAcl = [[0x61], [0x31]] := by
    rw [readTokens_eq hnul, longAcl, List.take_append, List.take_replicate, List.length_replicate,
      aclTokens, tokens_replicate_append rfl]
    rfl
  have hload := loadPublicKeys_eq longAcl
  rw [hread] at hload
  refine ⟨hnul, hwhole, hload, ?_⟩
  intro h
  obtain ⟨entries, hentries, hholds⟩ := h.balanced (by rw [hwhole]; rfl)
  rw [hload] at hentries
  obtain rfl := Option.some.inj (Option.some.inj hentries)
  rw [hwhole] at hholds
  have hpubkey := (List.forall₂_cons.mp hholds).1.pubkey
  exact absurd hpubkey (by decide)

/-! ## The table -/

/-- **The entries that are stored to.** -/
theorem storeEntries_index_iff {publicKeyIdx : ℕ} (hidx : publicKeyIdx ≤ maxPublicKeysSize)
    (ts : List (List UInt8)) :
    (∀ s ∈ storeEntries publicKeyIdx ts, s.publicKeyIdx < maxPublicKeysSize) ↔
      publicKeyIdx + (ts.length + 1) / 2 ≤ maxPublicKeysSize := by
  fun_induction storeEntries publicKeyIdx ts with
  | case1 publicKeyIdx => exact iff_of_true nofun hidx
  | case2 publicKeyIdx ip =>
    rw [List.forall_mem_singleton, List.length_singleton]
    exact Nat.lt_iff_add_one_le
  | case3 publicKeyIdx ip key rest ih =>
    rw [List.forall_mem_cons, List.forall_mem_cons, List.length_cons, List.length_cons]
    constructor
    · rintro ⟨hlt, -, hrest⟩
      have hlt : publicKeyIdx < maxPublicKeysSize := hlt
      have hle := (ih hlt).mp hrest
      omega
    · intro hle
      have hlt : publicKeyIdx < maxPublicKeysSize := by omega
      exact ⟨hlt, hlt, (ih hlt).mpr (by omega)⟩

theorem aclStores_index_iff (content : List UInt8) :
    (∀ s ∈ aclStores content, s.publicKeyIdx < maxPublicKeysSize) ↔
      (readTokens content).length ≤ 200 := by
  rw [← room_iff]
  exact storeEntries_index_iff (Nat.zero_le maxPublicKeysSize) (readTokens content)

/-- **The addresses that are stored.** -/
theorem exists_ip_mem_storeEntries {publicKeyIdx : ℕ} {ts : List (List UInt8)}
    {field : List UInt8} : (∃ i, .ip i field ∈ storeEntries publicKeyIdx ts) ↔
      ∃ ip ∈ ipTokens ts, field = strncpy ip inetAddrstrlen := by
  fun_induction storeEntries publicKeyIdx ts with
  | case1 publicKeyIdx => simp [ipTokens]
  | case2 publicKeyIdx ip => simp [ipTokens]
  | case3 publicKeyIdx ip key rest ih => simp [ipTokens, exists_or, ih]

theorem mem_of_mem_ipTokens {ts : List (List UInt8)} {ip : List UInt8} (h : ip ∈ ipTokens ts) :
    ip ∈ ts := by
  fun_induction ipTokens ts with
  | case1 => exact h
  | case2 => exact h
  | case3 first key rest ih =>
    rcases List.mem_cons.mp h with rfl | h
    · exact List.mem_cons_self
    · exact List.mem_cons_of_mem _ (List.mem_cons_of_mem _ (ih h))

/-- A store behind the table is what makes the result undefined. -/
theorem loadPublicKeys_eq_none_iff (content : List UInt8) :
    loadPublicKeys (some content) = none ↔
      ∃ s ∈ aclStores content, maxPublicKeysSize ≤ s.publicKeyIdx := by
  have hindex : (∃ s ∈ aclStores content, maxPublicKeysSize ≤ s.publicKeyIdx) ↔
      ¬ (readTokens content).length ≤ 200 := by
    rw [← aclStores_index_iff]
    push Not
    rfl
  rw [hindex, loadPublicKeys_eq]
  split_ifs with hle
  · exact iff_of_false not_false (not_not_intro hle)
  · exact iff_of_true rfl hle

/-- **The table.** For every file: `load_public_keys` stays inside its table, if and only if the
bytes it reads have no more than 200 tokens and no address fills its field. -/
theorem staysInside_iff (content : List UInt8) :
    StaysInside content ↔ (readTokens content).length ≤ 200 ∧
      ∀ ip ∈ ipTokens (readTokens content), ip.length < inetAddrstrlen := by
  have hnul : ∀ ip ∈ ipTokens (readTokens content), 0 ∉ ip := by
    intro ip hip
    exact notMem_of_mem_aclTokens (notMem_cString _) ip (mem_of_mem_ipTokens hip)
  constructor
  · intro h
    refine ⟨(aclStores_index_iff content).mp h.index, fun ip hip => ?_⟩
    obtain ⟨i, hi⟩ := exists_ip_mem_storeEntries.mpr ⟨ip, hip, rfl⟩
    exact (nul_mem_strncpy_iff (hnul ip hip)).mp (h.terminated i _ hi)
  · rintro ⟨hle, hips⟩
    refine ⟨(aclStores_index_iff content).mpr hle, fun entries hentries => ?_, ?_⟩
    · rw [loadPublicKeys_eq, if_pos hle] at hentries
      split_ifs at hentries
      · obtain rfl := Option.some.inj (Option.some.inj hentries)
        rw [List.length_map, length_pairs, maxPublicKeysSize]
        omega
      · cases Option.some.inj hentries
    · intro i field hfield
      obtain ⟨ip, hip, rfl⟩ := exists_ip_mem_storeEntries.mp ⟨i, hfield⟩
      exact (nul_mem_strncpy_iff (hnul ip hip)).mpr (hips ip hip)

/-- A file of the given number of tokens. -/
def digitsAcl : ℕ → List UInt8
  | 0 => []
  | n + 1 => 0x31 :: 0x20 :: digitsAcl n

theorem aclTokens_digitsAcl (n : ℕ) : aclTokens (digitsAcl n) = List.replicate n [0x31] := by
  induction n with
  | zero => rfl
  | succ n ih =>
    rw [digitsAcl, List.replicate_succ, ← ih]
    exact tokens_append_cons [0x31] (digitsAcl n) rfl

theorem length_digitsAcl (n : ℕ) : (digitsAcl n).length = 2 * n := by
  induction n with
  | zero => rfl
  | succ n ih =>
    rw [digitsAcl, List.length_cons, List.length_cons, ih]
    omega

theorem nul_notMem_digitsAcl (n : ℕ) : 0 ∉ digitsAcl n := by
  induction n with
  | zero => exact nofun
  | succ n ih => simp [digitsAcl, ih]

/-- The file `1 1 … 1` with 201 tokens: the last one is stored behind the table. -/
theorem not_staysInside_digitsAcl :
    (readTokens (digitsAcl 201)).length = 201 ∧
      (∃ s ∈ aclStores (digitsAcl 201), maxPublicKeysSize ≤ s.publicKeyIdx) ∧
      ¬ StaysInside (digitsAcl 201) := by
  have hread : (readTokens (digitsAcl 201)).length = 201 := by
    have hfits : (digitsAcl 201).length ≤ 1024 := by
      rw [length_digitsAcl]
      decide
    rw [readTokens_eq (nul_notMem_digitsAcl 201), List.take_of_length_le hfits,
      aclTokens_digitsAcl, List.length_replicate]
  have hstore : ∃ s ∈ aclStores (digitsAcl 201), maxPublicKeysSize ≤ s.publicKeyIdx := by
    rw [← loadPublicKeys_eq_none_iff, loadPublicKeys_eq, hread]
    rfl
  refine ⟨hread, hstore, fun h => ?_⟩
  obtain ⟨s, hs, hle⟩ := hstore
  exact absurd (h.index s hs) (Nat.not_lt.mpr hle)

end CS536Labs.Lab4
