import CS536Labs.Foundations.Ipv4
import CS536Labs.Lab4.Codec

/-!
# `lab4/lib/access_control.c`

The access control list of the file server: `loadPublicKeys` reads it, `checkAccess` decides on a
request. The list is meant to grant access to listed addresses only. `check_access` compares the
decoded certificate with the client's address but never looks at the `ip` field of an entry, so
that `checkAccess_correct_iff` needs the key that fits to be listed under the client's address.
-/

namespace CS536Labs.Lab4

/-- `MAX_PUBLIC_KEYS_SIZE`, the length of the array that `main` declares. -/
def maxPublicKeysSize : ℕ := 100

/-- An entry of the list. `ip` is the whole array of `INET_ADDRSTRLEN` bytes. -/
structure PublicKey where
  ip : List UInt8
  pubkey : UInt32
  deriving DecidableEq

/-- The separators of `acl.dat`. -/
def isAclDelimiter (c : UInt8) : Bool := c == 0x20 || c == 0x09 || c == 0x0a

/-- The loop of `load_public_keys` over the tokens, from entry `publicKeyIdx` on. The result is
`none` for a store behind the array, and `some none` for the return value -1. -/
def loadEntries : ℕ → List (List UInt8) → Option (Option (List PublicKey))
  | _, [] => some (some [])
  | publicKeyIdx, [_] => if publicKeyIdx < maxPublicKeysSize then some none else none
  | publicKeyIdx, ip :: key :: rest =>
    if publicKeyIdx < maxPublicKeysSize then
      (loadEntries (publicKeyIdx + 1) rest).map fun entries => entries.map fun entries =>
        ⟨strncpy ip inetAddrstrlen, UInt32.ofNat (strtoul key)⟩ :: entries
    else none

/-- `load_public_keys` on the content of `acl.dat`, `none` when the file cannot be opened. -/
def loadPublicKeys (acl : Option (List UInt8)) : Option (Option (List PublicKey)) :=
  match acl with
  | none => some none
  | some content => loadEntries 0 (tokens isAclDelimiter (cString (content.take 1024)))

/-- `check_access`, with `ip` the client's address in host byte order: `none` when access is
denied, and the key when it is granted. -/
def checkAccess (ip certificate : UInt32) : List PublicKey → Option UInt32
  | [] => none
  | entry :: entries =>
    if bbencode certificate entry.pubkey == ip then some entry.pubkey
    else checkAccess ip certificate entries

theorem checkAccess_eq_some_iff {ip certificate key : UInt32} (entries : List PublicKey) :
    checkAccess ip certificate entries = some key ↔
      key = certificate ^^^ ip ∧ ∃ entry ∈ entries, entry.pubkey = key := by
  induction entries with
  | nil => simp [checkAccess]
  | cons entry entries ih =>
    unfold checkAccess
    split_ifs with h
    · have hkey := (bbencode_eq_iff _ _ _).mp (beq_iff_eq.mp h)
      constructor
      · intro heq
        obtain rfl : entry.pubkey = key := Option.some.inj heq
        exact ⟨hkey, entry, List.mem_cons_self, rfl⟩
      · rintro ⟨rfl, -⟩
        rw [hkey]
    · have hkey : ¬ entry.pubkey = certificate ^^^ ip := by
        rw [← bbencode_eq_iff]
        simpa using h
      rw [ih]
      apply and_congr_right
      rintro rfl
      rw [List.exists_mem_cons_iff, or_iff_right hkey]

/-! ## Access is granted to listed addresses -/

/-- The four bytes of an address in host byte order. -/
def octets (ip : UInt32) : List UInt8 :=
  [UInt8.ofNat (ip.toNat / 2 ^ 24), UInt8.ofNat (ip.toNat / 2 ^ 16 % 256),
    UInt8.ofNat (ip.toNat / 2 ^ 8 % 256), UInt8.ofNat (ip.toNat % 256)]

/-- The `ip` field of the entry denotes the address. -/
def PublicKey.Denotes (entry : PublicKey) (ip : UInt32) : Prop :=
  cString entry.ip = inetNtop (octets ip)

/-- Access is granted exactly to an address that is listed with a key that fits the certificate,
and the key reported is the key of such an entry. -/
structure AccessCorrect (entries : List PublicKey) (ip certificate : UInt32) : Prop where
  granted_iff : (checkAccess ip certificate entries).isSome ↔
    ∃ entry ∈ entries, entry.Denotes ip ∧ certificate ^^^ entry.pubkey = ip
  key : ∀ key, checkAccess ip certificate entries = some key →
    ∃ entry ∈ entries, entry.Denotes ip ∧ certificate ^^^ entry.pubkey = ip ∧ entry.pubkey = key

/-- **Access control.** `check_access` is right about a client and a certificate exactly when the
one key that fits them is not listed, or is listed under the address of the client. -/
theorem checkAccess_correct_iff (entries : List PublicKey) (ip certificate : UInt32) :
    AccessCorrect entries ip certificate ↔
      ((∃ entry ∈ entries, entry.pubkey = certificate ^^^ ip) →
        ∃ entry ∈ entries, entry.Denotes ip ∧ entry.pubkey = certificate ^^^ ip) := by
  have hfits : ∀ key, certificate ^^^ key = ip ↔ key = certificate ^^^ ip :=
    fun key => bbencode_eq_iff certificate key ip
  have hgranted : (checkAccess ip certificate entries).isSome ↔
      ∃ entry ∈ entries, entry.pubkey = certificate ^^^ ip := by
    rw [Option.isSome_iff_exists]
    constructor
    · rintro ⟨key, hkey⟩
      obtain ⟨rfl, hlisted⟩ := (checkAccess_eq_some_iff entries).mp hkey
      exact hlisted
    · intro hlisted
      exact ⟨_, (checkAccess_eq_some_iff entries).mpr ⟨rfl, hlisted⟩⟩
  constructor
  · intro h hlisted
    obtain ⟨entry, hmem, hdenotes, hkey⟩ := h.granted_iff.mp (hgranted.mpr hlisted)
    exact ⟨entry, hmem, hdenotes, (hfits _).mp hkey⟩
  · intro h
    refine ⟨?_, ?_⟩
    · rw [hgranted]
      constructor
      · intro hlisted
        obtain ⟨entry, hmem, hdenotes, hkey⟩ := h hlisted
        exact ⟨entry, hmem, hdenotes, (hfits _).mpr hkey⟩
      · rintro ⟨entry, hmem, -, hkey⟩
        exact ⟨entry, hmem, (hfits _).mp hkey⟩
    · intro key hkey
      obtain ⟨rfl, hlisted⟩ := (checkAccess_eq_some_iff entries).mp hkey
      obtain ⟨entry, hmem, hdenotes, hkey⟩ := h hlisted
      exact ⟨entry, hmem, hdenotes, (hfits _).mpr hkey, hkey⟩

/-- The file `10.0.0.1 5`. -/
def oneEntryAcl : List UInt8 :=
  [0x31, 0x30, 0x2e, 0x30, 0x2e, 0x30, 0x2e, 0x31, 0x20, 0x35, 0x0a]

/-- With only `10.0.0.1` listed, the client at `10.0.0.2` is let in with that entry's key. -/
theorem checkAccess_unlisted :
    ∃ entries, loadPublicKeys (some oneEntryAcl) = some (some entries) ∧
      checkAccess 0x0a000002 (0x0a000002 ^^^ 5) entries = some 5 ∧
      (∀ entry ∈ entries, ¬ entry.Denotes 0x0a000002) ∧
      ¬ AccessCorrect entries 0x0a000002 (0x0a000002 ^^^ 5) := by
  refine ⟨[⟨[0x31, 0x30, 0x2e, 0x30, 0x2e, 0x30, 0x2e, 0x31, 0, 0, 0, 0, 0, 0, 0, 0], 5⟩],
    by decide, by decide, ?_⟩
  have hunlisted : ∀ entry ∈ [(⟨[0x31, 0x30, 0x2e, 0x30, 0x2e, 0x30, 0x2e, 0x31, 0, 0, 0, 0, 0, 0,
      0, 0], 5⟩ : PublicKey)], ¬ entry.Denotes 0x0a000002 := by
    unfold PublicKey.Denotes
    decide
  refine ⟨hunlisted, fun h => ?_⟩
  obtain ⟨entry, hmem, hdenotes, -⟩ := h.granted_iff.mp (by decide)
  exact hunlisted entry hmem hdenotes

end CS536Labs.Lab4
