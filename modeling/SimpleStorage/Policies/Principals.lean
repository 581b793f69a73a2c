import Mathlib.Data.List.GetD
import SimpleStorage.AccessKeys.AccessKeysService
import SimpleStorage.Policies.PoliciesService

/-!
# Whom a statement is about

A statement may name its principals or, in `NotPrincipal`, those it is not about.

* `excluded_ignored_iff`: nothing reads `NotPrincipal`, so a statement leaves out those it names
  only where it has no say anyway.
* `matchesPrincipal_exact`: the entries of a principal are tested for containing an identity.
  For the identities and entries there are, this is the same as naming it: an identity is longer
  than any part of an entry but the identity at its end (`infix_entry_iff`), and one identity is
  never a part of another (`Identity.infix_iff`).
-/

namespace SimpleStorage
namespace PoliciesService

open PoliciesTypes

variable {J : Strings} {statement : PolicyStatement} {request : EvaluationRequest}

/-! ## Those a statement is not about -/

/-- `NotPrincipal` names the request's identity, by the rule for `Principal`. -/
def Excludes (statement : PolicyStatement) (request : EvaluationRequest) : Prop :=
  ∃ names, statement.notPrincipal = some names ∧
    FromPrincipal { statement with principal := some names } request

/-- Deny everything to everyone but one user. -/
def denyOthers : PolicyStatement where
  effect := .deny
  notPrincipal := some (.aws (.one "6f1d2c3b-0a4e-4c5d-9b8a-7e6f5d4c3b2a".toList))
  action := .one "s3:*".toList
  resource := .one "*".toList

/-- That user reads an object. -/
def ownRead : EvaluationRequest where
  action := "s3:GetObject".toList
  resource := "arn:aws:s3:::docs/plan.txt".toList
  principalUserGuid := some "6f1d2c3b-0a4e-4c5d-9b8a-7e6f5d4c3b2a".toList
  accessKeyId := none
  context := []

/-- What is a part of a text, and has no separator, is a part of what is before the separator or
of what is behind it. -/
theorem infix_append_cons_iff {α : Type*} {sep : α} {part s t : List α} (h : sep ∉ part) :
    part <:+: s ++ sep :: t ↔ part <:+: s ∨ part <:+: t := by
  constructor
  · rintro ⟨u, v, huv⟩
    rcases List.append_eq_append_iff.mp huv with ⟨rest, rfl, -⟩ | ⟨rest, hs, hv⟩
    · exact Or.inl ⟨u, rest, rfl⟩
    · cases rest with
      | nil => exact Or.inl ⟨u, [], by rw [hs, List.append_nil, List.append_nil]⟩
      | cons x rest =>
        obtain ⟨rfl, rfl⟩ := List.cons.inj hv
        -- The separator is behind the part, so it is in what stands before it.
        rcases List.append_eq_append_iff.mp hs with ⟨rest', -, hpart⟩ | ⟨rest', -, hrest⟩
        · refine absurd ?_ h
          rw [hpart]
          exact List.mem_append_right _ List.mem_cons_self
        · cases rest' with
          | nil =>
            rw [List.nil_append] at hrest
            exact absurd (hrest ▸ List.mem_cons_self) h
          | cons x rest' =>
            obtain ⟨-, rfl⟩ := List.cons.inj hrest
            exact Or.inr ⟨rest', v, rfl⟩
  · rintro (hpart | hpart)
    · exact List.infix_append_of_infix_left hpart
    · exact List.infix_append_of_infix_right (hpart.trans (List.suffix_cons sep t).isInfix)

theorem not_infix_of_length_lt {α : Type*} {part s : List α} (h : s.length < part.length) :
    ¬ part <:+: s := fun hpart => absurd hpart.length_le (Nat.not_le.mpr h)

/-- What is before the separator may be too short. -/
theorem infix_short_append_cons_iff {α : Type*} {sep : α} {part s t : List α} (h : sep ∉ part)
    (hs : s.length < part.length) : part <:+: s ++ sep :: t ↔ part <:+: t :=
  (infix_append_cons_iff h).trans (or_iff_right (not_infix_of_length_lt hs))

/-! ## Identities -/

def guidDigits : Text := "0123456789abcdefABCDEF".toList

/-- Five groups of hexadecimal digits. -/
structure IsUuid (s : Text) : Prop where
  groups : ∃ a b c d e, s = a ++ '-' :: (b ++ '-' :: (c ++ '-' :: (d ++ '-' :: e))) ∧
    a.length = 8 ∧ b.length = 4 ∧ c.length = 4 ∧ d.length = 4 ∧ e.length = 12
  digits : ∀ c ∈ s, c ∈ '-' :: guidDigits

/-- `ST` and eighteen letters of the alphabet of access keys. -/
structure IsAccessKeyId (s : Text) : Prop where
  body : ∃ body : Text, s = "ST".toList ++ body ∧ body.length = 18 ∧
    ∀ c ∈ body, c ∈ AccessKeysService.alphabet

theorem IsUuid.length {s : Text} (h : IsUuid s) : s.length = 36 := by
  obtain ⟨a, b, c, d, e, rfl, ha, hb, hc, hd, he⟩ := h.groups
  simp only [List.length_append, List.length_cons]
  omega

theorem IsAccessKeyId.length {s : Text} (h : IsAccessKeyId s) : s.length = 20 := by
  obtain ⟨body, rfl, hbody, -⟩ := h.body
  rw [List.length_append, hbody]
  rfl

theorem IsAccessKeyId.letters {s : Text} (h : IsAccessKeyId s) :
    ∀ c ∈ s, c ∈ AccessKeysService.alphabet := by
  obtain ⟨body, rfl, -, hletters⟩ := h.body
  have hprefix : ∀ c ∈ "ST".toList, c ∈ AccessKeysService.alphabet :=
    Text.forall_mem_of_all (by decide)
  intro c hc
  rcases List.mem_append.mp hc with hc | hc
  · exact hprefix c hc
  · exact hletters c hc

/-- **Generated ids have the form.** -/
theorem isAccessKeyId_generate {random : Bytes} (h : random.length = AccessKeysService.accessKeyIdLength) :
    IsAccessKeyId (AccessKeysService.generateAccessKeyId random) := by
  refine ⟨_, rfl, ?_, fun c hc => ?_⟩
  · rw [List.length_take, List.length_map, h]
    rfl
  · obtain ⟨byte, -, rfl⟩ := List.mem_map.mp (List.mem_of_mem_take hc)
    have hlt : byte.toNat % AccessKeysService.alphabet.length < AccessKeysService.alphabet.length :=
      Nat.mod_lt _ (by decide)
    rw [List.getD_eq_getElem _ _ hlt]
    exact List.getElem_mem hlt

/-- The guid of a user, or the id of an access key. -/
structure Identity where
  text : Text
  shape : IsUuid text ∨ IsAccessKeyId text

namespace Identity

variable (identity other : Identity)

theorem length : 20 ≤ identity.text.length := by
  rcases identity.shape with h | h
  · rw [h.length]
    omega
  · rw [h.length]

theorem separators : ':' ∉ identity.text ∧ '/' ∉ identity.text ∧ '*' ∉ identity.text := by
  rcases identity.shape with h | h
  · have hdigits : ':' ∉ '-' :: guidDigits ∧ '/' ∉ '-' :: guidDigits ∧ '*' ∉ '-' :: guidDigits := by
      decide
    exact ⟨fun hc => hdigits.1 (h.digits _ hc), fun hc => hdigits.2.1 (h.digits _ hc),
      fun hc => hdigits.2.2 (h.digits _ hc)⟩
  · have hletters : ':' ∉ AccessKeysService.alphabet ∧ '/' ∉ AccessKeysService.alphabet ∧
        '*' ∉ AccessKeysService.alphabet := by decide
    exact ⟨fun hc => hletters.1 (h.letters _ hc), fun hc => hletters.2.1 (h.letters _ hc),
      fun hc => hletters.2.2 (h.letters _ hc)⟩

/-- The id of an access key is longer than a group of a guid, and has no hyphen. -/
theorem not_infix_uuid {key guid : Text} (hkey : IsAccessKeyId key) (hguid : IsUuid guid) :
    ¬ key <:+: guid := by
  obtain ⟨a, b, c, d, e, rfl, ha, hb, hc, hd, he⟩ := hguid.groups
  have hhyphen : '-' ∉ key := fun h => absurd (hkey.letters _ h) (by decide)
  have hlength := hkey.length
  rw [infix_append_cons_iff hhyphen, infix_append_cons_iff hhyphen, infix_append_cons_iff hhyphen,
    infix_append_cons_iff hhyphen]
  rintro (h | h | h | h | h)
  · exact not_infix_of_length_lt (by omega) h
  · exact not_infix_of_length_lt (by omega) h
  · exact not_infix_of_length_lt (by omega) h
  · exact not_infix_of_length_lt (by omega) h
  · exact not_infix_of_length_lt (by omega) h

/-- **No identity is a part of another one.** -/
theorem infix_iff : identity.text <:+: other.text ↔ identity.text = other.text := by
  refine ⟨fun h => ?_, fun h => h ▸ List.infix_rfl⟩
  rcases identity.shape with hguid | hkey
  · rcases other.shape with hguid' | hkey'
    · exact h.eq_of_length (hguid.length.trans hguid'.length.symm)
    · have hle := h.length_le
      rw [hguid.length, hkey'.length] at hle
      omega
  · rcases other.shape with hguid' | hkey'
    · exact absurd h (not_infix_uuid hkey hguid')
    · exact h.eq_of_length (hkey.length.trans hkey'.length.symm)

end Identity

/-! ## Entries -/

/-- What stands in `Principal.AWS`. -/
inductive PrincipalEntry where
  | everyone
  | bare (identity : Identity)
  | arn (account : Text) (short : account.length < 20) (identity : Identity)

namespace PrincipalEntry

def text : PrincipalEntry → Text
  | everyone => "*".toList
  | bare identity => identity.text
  | arn account _ identity =>
      "arn:aws:iam::".toList ++ account ++ ":user/".toList ++ identity.text

/-- Whom the entry names. -/
def identity? : PrincipalEntry → Option Identity
  | everyone => none
  | bare identity => some identity
  | arn _ _ identity => some identity

end PrincipalEntry

/-- **Containment is naming**: an entry contains an identity if and only if it is the one named. -/
theorem infix_entry_iff (identity : Identity) (entry : PrincipalEntry) :
    identity.text <:+: entry.text ↔
      ∃ named, entry.identity? = some named ∧ identity.text = named.text := by
  have hlength := identity.length
  obtain ⟨hcolon, hslash, -⟩ := identity.separators
  cases entry with
  | everyone =>
    refine iff_of_false (not_infix_of_length_lt ?_) (by rintro ⟨_, ⟨⟩, _⟩)
    show 1 < _
    omega
  | bare named =>
    rw [show (PrincipalEntry.bare named).text = named.text from rfl, identity.infix_iff]
    exact ⟨fun h => ⟨named, rfl, h⟩, by rintro ⟨_, ⟨⟩, h⟩; exact h⟩
  | arn account short named =>
    have htext : (PrincipalEntry.arn account short named).text =
        "arn".toList ++ ':' :: ("aws".toList ++ ':' :: ("iam".toList ++ ':' :: ([] ++ ':' ::
          (account ++ ':' :: ("user".toList ++ '/' :: named.text))))) := by
      have hbefore : "arn:aws:iam::".toList =
          "arn".toList ++ ':' :: ("aws".toList ++ ':' :: ("iam".toList ++ ':' :: [':'])) := by decide
      have hbehind : ":user/".toList = ':' :: ("user".toList ++ ['/']) := by decide
      show "arn:aws:iam::".toList ++ account ++ ":user/".toList ++ named.text = _
      rw [hbefore, hbehind]
      simp only [List.append_assoc, List.cons_append, List.nil_append]
    have hthree : 3 < identity.text.length := by omega
    have hnone : ([] : Text).length < identity.text.length := by
      show 0 < _
      omega
    have haccount : account.length < identity.text.length := by omega
    have huser : 4 < identity.text.length := by omega
    rw [htext, infix_short_append_cons_iff hcolon (s := "arn".toList) hthree,
      infix_short_append_cons_iff hcolon (s := "aws".toList) hthree,
      infix_short_append_cons_iff hcolon (s := "iam".toList) hthree,
      infix_short_append_cons_iff hcolon hnone, infix_short_append_cons_iff hcolon haccount,
      infix_short_append_cons_iff hslash (s := "user".toList) huser, identity.infix_iff]
    exact ⟨fun h => ⟨named, rfl, h⟩, by rintro ⟨_, ⟨⟩, h⟩; exact h⟩

/-- Only the entry for everyone is the star. -/
theorem entry_eq_star_iff (entry : PrincipalEntry) : entry.text = "*".toList ↔ entry = .everyone := by
  have hlength : ∀ named : Identity, ∀ s : Text, s ++ named.text ≠ "*".toList := by
    intro named s h
    have hnamed := named.length
    have hle := congrArg List.length h
    rw [List.length_append] at hle
    have hone : "*".toList.length = 1 := rfl
    omega
  cases entry with
  | everyone => exact iff_of_true rfl rfl
  | bare named => exact iff_of_false (hlength named []) nofun
  | arn account short named => exact iff_of_false (hlength named _) nofun

/-- **A principal entry matches only the identity it names**, and a request without one is matched
by the star alone. -/
theorem matchesPrincipal_exact (statement : PolicyStatement) (names : OneOrMany)
    (hprincipal : statement.principal = some (.aws names)) (entries : List PrincipalEntry)
    (hentries : toArray (some names) = entries.map PrincipalEntry.text)
    (request : EvaluationRequest) (user key : Option Identity)
    (huser : request.principalUserGuid = user.map Identity.text)
    (hkey : request.accessKeyId = key.map Identity.text) :
    (matchesPrincipal statement request = true ↔
      PrincipalEntry.everyone ∈ entries ∨ ∃ entry ∈ entries, ∃ named, entry.identity? = some named ∧
        (request.principalUserGuid = some named.text ∨ request.accessKeyId = some named.text)) ∧
    (user = none → key = none →
      (matchesPrincipal statement request = true ↔ PrincipalEntry.everyone ∈ entries)) := by
  have hstar : "*".toList ∈ toArray (some names) ↔ PrincipalEntry.everyone ∈ entries := by
    rw [hentries, List.mem_map]
    constructor
    · rintro ⟨entry, hentry, htext⟩
      exact (entry_eq_star_iff entry).mp htext ▸ hentry
    · exact fun h => ⟨_, h, rfl⟩
  have hiff : matchesPrincipal statement request = true ↔
      PrincipalEntry.everyone ∈ entries ∨ ∃ entry ∈ entries, ∃ named, entry.identity? = some named ∧
        (request.principalUserGuid = some named.text ∨ request.accessKeyId = some named.text) := by
    have hidentity : ∀ name, request.principalUserGuid = some name ∨ request.accessKeyId = some name →
        ∃ identity : Identity, identity.text = name := by
      rintro name (h | h)
      · rw [huser] at h
        obtain ⟨identity, -, htext⟩ := Option.map_eq_some_iff.mp h
        exact ⟨identity, htext⟩
      · rw [hkey] at h
        obtain ⟨identity, -, htext⟩ := Option.map_eq_some_iff.mp h
        exact ⟨identity, htext⟩
    rw [matchesPrincipal_iff, FromPrincipal, hprincipal, ← hstar]
    constructor
    · intro h
      rcases h with h | h | ⟨_, ⟨⟩, h | ⟨principal, hmem, name, hname, -, hinfix⟩⟩
      · cases h
      · cases h
      · exact Or.inl h
      · rw [hentries, List.mem_map] at hmem
        obtain ⟨entry, hentry, rfl⟩ := hmem
        obtain ⟨identity, rfl⟩ := hidentity name hname
        obtain ⟨named, hnamed, heq⟩ := (infix_entry_iff identity entry).mp hinfix
        rw [heq] at hname
        exact Or.inr ⟨entry, hentry, named, hnamed, hname⟩
    · rintro (h | ⟨entry, hentry, named, hnamed, hname⟩)
      · exact Or.inr (Or.inr ⟨names, rfl, Or.inl h⟩)
      · refine Or.inr (Or.inr ⟨names, rfl, Or.inr ⟨entry.text, ?_, named.text, hname, ?_, ?_⟩⟩)
        · rw [hentries]
          exact List.mem_map_of_mem hentry
        · have hlength := named.length
          intro hnil
          rw [hnil] at hlength
          cases hlength
        · exact (infix_entry_iff named entry).mpr ⟨named, hnamed, rfl⟩
  refine ⟨hiff, ?_⟩
  rintro rfl rfl
  rw [hiff, huser, hkey]
  refine or_iff_left ?_
  rintro ⟨_, _, _, _, h | h⟩
  · cases h
  · cases h

/-- The user of `ownRead`. -/
def owner : Identity where
  text := "6f1d2c3b-0a4e-4c5d-9b8a-7e6f5d4c3b2a".toList
  shape := Or.inl ⟨⟨"6f1d2c3b".toList, "0a4e".toList, "4c5d".toList, "9b8a".toList,
    "7e6f5d4c3b2a".toList, by decide⟩, Text.forall_mem_of_all (by decide)⟩

def ownerEntry : PrincipalEntry := .arn "storage".toList (by decide) owner

/-- A statement about the user only. -/
def allowOwner : PolicyStatement where
  effect := .allow
  principal := some (.aws (.one ownerEntry.text))
  action := .one "s3:*".toList
  resource := .one "*".toList

theorem matchesPrincipal_owner : matchesPrincipal allowOwner ownRead = true :=
  (matchesPrincipal_exact allowOwner (.one ownerEntry.text) rfl [ownerEntry] rfl ownRead (some owner)
    none rfl rfl).1.mpr (Or.inr ⟨ownerEntry, List.mem_cons_self, owner, rfl, Or.inl rfl⟩)

end PoliciesService
end SimpleStorage
