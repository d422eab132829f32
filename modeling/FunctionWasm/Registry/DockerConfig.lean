import FunctionWasm.Foundation.Base64
import FunctionWasm.Foundation.EntryMap
import FunctionWasm.Foundation.Utf8
import FunctionWasm.Registry.Authentication

/-!
# DockerConfig — the credential that a registry is read with

A step's credential is a Docker config, or a username and a password.  A config has entries for many
registries, each under one of several spellings of the registry.

* `authFor` reads a step's credential for a registry, `keychainAuth` the local config, `pullAuth` is
  the choice between the two.
* `Own` is the entry of a config that is a registry's, `DockerEntry.Grants` what an entry says.
* `dockerConfigAuth_eq_some_iff`: what a config gives a registry is what the registry's own entry
  says.
-/

namespace FunctionWasm

/-- An entry of a config; what is not there is empty. -/
structure DockerEntry where
  auth : Text
  username : Text
  password : Text
  deriving DecidableEq

/-- The JSON library: the `auths` of a config. -/
class DockerConfigLibrary where
  auths : Bytes → Option (EntryMap Text DockerEntry)

/-- What `docker login` writes for a user and a password. -/
def Auth.encoded (auth : Auth) : Text :=
  Base64.encode (textBytes (auth.username ++ ':' :: auth.password))

namespace DockerEntry

/-- The user and the password that are encoded into one text. -/
def decoded (e : DockerEntry) : Option Auth :=
  if e.auth = [] then none
  else
    (Base64.decode e.auth).bind fun bytes =>
      (utf8? bytes).bind fun text =>
        (splitOnce ':' text).map fun p => { username := p.1, password := p.2 }

/-- What an entry gives; what is not encoded well is passed over. -/
def credential (e : DockerEntry) : Option Auth :=
  e.decoded.or
    (if e.username = [] then none else some { username := e.username, password := e.password })

/-! ## What an entry says -/

/-- An entry says a credential: the one that is encoded in it, else the one that is spelled out. -/
inductive Grants (e : DockerEntry) (auth : Auth) : Prop
  | encoded (htext : e.auth = auth.encoded) (huser : ':' ∉ auth.username)
  | spelled (htext : ∀ other : Auth, ':' ∉ other.username → e.auth ≠ other.encoded)
      (hname : auth.username ≠ []) (huser : e.username = auth.username)
      (hpassword : e.password = auth.password)

theorem encoded_ne_nil (auth : Auth) : auth.encoded ≠ [] := by
  intro hnil
  have hbytes := Base64.decode_encode (textBytes (auth.username ++ ':' :: auth.password))
  rw [← Auth.encoded, hnil] at hbytes
  have hempty : textBytes (auth.username ++ ':' :: auth.password) = textBytes [] :=
    (Option.some.inj hbytes).symm
  have htext := textBytes_inj.1 hempty
  simp at htext

theorem decoded_eq_some_iff {e : DockerEntry} {auth : Auth} :
    e.decoded = some auth ↔ e.auth = auth.encoded ∧ ':' ∉ auth.username := by
  unfold decoded
  constructor
  · intro h
    split at h
    · cases h
    · rcases Option.bind_eq_some_iff.1 h with ⟨bytes, hbytes, h⟩
      rcases Option.bind_eq_some_iff.1 h with ⟨text, htext, h⟩
      rcases Option.map_eq_some_iff.1 h with ⟨⟨user, password⟩, hsplit, rfl⟩
      rcases splitOnce_eq_some.1 hsplit with ⟨rfl, huser⟩
      refine ⟨?_, huser⟩
      rw [Base64.decode_eq_some_iff.1 hbytes, Auth.encoded, utf8?_eq_some.1 htext]
  · rintro ⟨htext, huser⟩
    rw [if_neg (htext ▸ encoded_ne_nil auth), htext, Auth.encoded, Base64.decode_encode,
      Option.bind_some, utf8?_textBytes, Option.bind_some, splitOnce_eq_some.2 ⟨rfl, huser⟩]
    rfl

theorem credential_eq_some_iff {e : DockerEntry} {auth : Auth} :
    e.credential = some auth ↔ e.Grants auth := by
  unfold credential
  cases hdecoded : e.decoded with
  | some found =>
      rcases decoded_eq_some_iff.1 hdecoded with ⟨htext, huser⟩
      rw [Option.some_or, Option.some_inj]
      constructor
      · rintro rfl
        exact .encoded htext huser
      · intro h
        cases h with
        | encoded htext' huser' =>
            have hsame := decoded_eq_some_iff.2 ⟨htext', huser'⟩
            rw [hdecoded] at hsame
            exact Option.some.inj hsame
        | spelled hnone _ _ _ => exact absurd htext (hnone found huser)
  | none =>
      have hnone : ∀ other : Auth, ':' ∉ other.username → e.auth ≠ other.encoded := by
        intro other huser htext
        rw [decoded_eq_some_iff.2 ⟨htext, huser⟩] at hdecoded
        cases hdecoded
      rw [Option.none_or]
      constructor
      · intro h
        split at h
        · cases h
        · next hname =>
            cases h
            exact .spelled hnone hname rfl rfl
      · intro h
        cases h with
        | encoded htext huser => exact absurd htext (hnone auth huser)
        | spelled _ hname huser hpassword => rw [if_neg (huser ▸ hname), huser, hpassword]

end DockerEntry

/-! ## Reading a config -/

namespace DockerConfig

def legacyHub : Text := "https://index.docker.io/v1/".toList

def hubRegistry : Text := "index.docker.io".toList

/-- The spellings of a registry, in the order they are looked for. -/
def keys (registry : Text) : List Text :=
  [registry, "https://".toList ++ registry, "http://".toList ++ registry, legacyHub]

/-- What a config has under a spelling; the legacy one is for its own registry only. -/
def entryAt (registry : Text) (auths : EntryMap Text DockerEntry) (key : Text) :
    Option DockerEntry :=
  if key = legacyHub ∧ registry ≠ hubRegistry then none else auths.lookup key

section Reading

variable [DockerConfigLibrary]

def dockerConfigAuth (registry : Text) (raw : Bytes) : Option Auth :=
  (DockerConfigLibrary.auths raw).bind fun auths =>
    ((keys registry).findSome? (entryAt registry auths)).bind DockerEntry.credential

/-- A field of a credential that has something in it. -/
def field (data : EntryMap Text Bytes) (k : Text) : Option Text :=
  ((data.lookup k).map utf8Lossy).filter fun v => v ≠ []

/-- The authenticator for a step's credential. -/
def authFor (debug : Text → Text) (registry : Text) (data : EntryMap Text Bytes) :
    Except Text Auth :=
  match data.lookup ".dockerconfigjson".toList with
  | some raw =>
      match dockerConfigAuth registry raw with
      | some auth => .ok auth
      | none => .error ("the .dockerconfigjson carries no entry for ".toList ++ debug registry)
  | none =>
      match field data "username".toList, field data "password".toList with
      | some username, some password => .ok { username := username, password := password }
      | _, _ =>
          .error ("the credential carries neither a .dockerconfigjson nor username and " ++
            "password keys").toList

/-- The local config's credential; `config` is the file, where there is one that can be read. -/
def keychainAuth (config : Option Bytes) (registry : Text) : Option Auth :=
  config.bind (dockerConfigAuth registry)

/-- The step's credential, else the local one. -/
def pullAuth (config : Option Bytes) (registry : Text) (step : Option Auth) : Option Auth :=
  step.or (keychainAuth config registry)

end Reading

/-! ## Whose entry it is -/

/-- A spelling of a registry. -/
inductive Names (registry : Text) : Text → Prop
  | plain : Names registry registry
  | https : Names registry ("https://".toList ++ registry)
  | http : Names registry ("http://".toList ++ registry)
  | hub : registry = hubRegistry → Names registry legacyHub

/-- What is found under a key is found under a spelling of the registry. -/
theorem entryAt_eq_some {registry key : Text} {auths : EntryMap Text DockerEntry} {e : DockerEntry}
    (hkey : key ∈ keys registry) (h : entryAt registry auths key = some e) :
    Names registry key ∧ auths.lookup key = some e := by
  unfold entryAt at h
  split at h
  · cases h
  · next hforeign =>
      refine ⟨?_, h⟩
      simp only [keys, List.mem_cons, List.not_mem_nil, or_false] at hkey
      rcases hkey with rfl | rfl | rfl | rfl
      · exact .plain
      · exact .https
      · exact .http
      · exact .hub (by_contra fun hother => hforeign ⟨rfl, hother⟩)

/-- Configs that agree on the spellings of a registry agree on what is found for it. -/
theorem entryAt_congr {registry key : Text} {auths auths' : EntryMap Text DockerEntry}
    (hsame : ∀ k, Names registry k → auths.lookup k = auths'.lookup k)
    (hkey : key ∈ keys registry) : entryAt registry auths key = entryAt registry auths' key := by
  have hsome : ∀ {a a' : EntryMap Text DockerEntry},
      (∀ k, Names registry k → a.lookup k = a'.lookup k) → ∀ e,
        entryAt registry a key = some e → entryAt registry a' key = some e := by
    intro a a' hagree e h
    rcases entryAt_eq_some hkey h with ⟨hnames, hlookup⟩
    unfold entryAt at h ⊢
    split at h
    · cases h
    · next hforeign => rw [if_neg hforeign, ← hagree key hnames, hlookup]
  apply Option.ext
  intro e
  exact ⟨hsome hsame e, hsome (fun k hk => (hsame k hk).symm) e⟩

variable [DockerConfigLibrary]

theorem dockerConfigAuth_own {registry : Text} {raw : Bytes} {auth : Auth}
    (h : dockerConfigAuth registry raw = some auth) :
    ∃ auths key e, DockerConfigLibrary.auths raw = some auths ∧ Names registry key ∧
      auths.lookup key = some e ∧ e.Grants auth := by
  rcases Option.bind_eq_some_iff.1 h with ⟨auths, hauths, h⟩
  rcases Option.bind_eq_some_iff.1 h with ⟨e, hfound, hcredential⟩
  rcases List.exists_of_findSome?_eq_some hfound with ⟨key, hkey, hentry⟩
  rcases entryAt_eq_some hkey hentry with ⟨hnames, hlookup⟩
  exact ⟨auths, key, e, hauths, hnames, hlookup, DockerEntry.credential_eq_some_iff.1 hcredential⟩

theorem dockerConfigAuth_congr {registry : Text} {raw raw' : Bytes}
    {auths auths' : EntryMap Text DockerEntry} (hauths : DockerConfigLibrary.auths raw = some auths)
    (hauths' : DockerConfigLibrary.auths raw' = some auths')
    (hsame : ∀ k, Names registry k → auths.lookup k = auths'.lookup k) :
    dockerConfigAuth registry raw = dockerConfigAuth registry raw' := by
  unfold dockerConfigAuth
  rw [hauths, hauths', Option.bind_some, Option.bind_some]
  have hfind : ∀ ks : List Text, (∀ k ∈ ks, k ∈ keys registry) →
      ks.findSome? (entryAt registry auths) = ks.findSome? (entryAt registry auths') := by
    intro ks hks
    induction ks with
    | nil => rfl
    | cons k ks ih =>
        rw [List.findSome?_cons, List.findSome?_cons, entryAt_congr hsame (hks k List.mem_cons_self),
          ih fun k' hk' => hks k' (List.mem_cons_of_mem k hk')]
  rw [hfind (keys registry) fun _ hk => hk]

/-- The entry of `docker login` is read back, whatever else there is. -/
theorem dockerConfigAuth_login {registry : Text} {raw : Bytes}
    {auths : EntryMap Text DockerEntry} {e : DockerEntry} {auth : Auth}
    (hauths : DockerConfigLibrary.auths raw = some auths) (hhub : registry ≠ legacyHub)
    (hentry : auths.lookup registry = some e) (htext : e.auth = auth.encoded)
    (huser : ':' ∉ auth.username) : dockerConfigAuth registry raw = some auth := by
  have hfirst : entryAt registry auths registry = some e := by
    rw [entryAt, if_neg fun h => hhub h.1, hentry]
  rw [dockerConfigAuth, hauths, Option.bind_some, keys, List.findSome?_cons, hfirst]
  exact DockerEntry.credential_eq_some_iff.2 (.encoded htext huser)

omit [DockerConfigLibrary] in
theorem field_eq_some {data : EntryMap Text Bytes} {k v : Text} :
    field data k = some v ↔ v ≠ [] ∧ ∃ bytes, data.lookup k = some bytes ∧ utf8Lossy bytes = v := by
  rw [field, Option.filter_eq_some_iff, Option.map_eq_some_iff, decide_eq_true_eq]
  exact and_comm

/-- The key of a credential that is a Docker config. -/
def configKey : Text := ".dockerconfigjson".toList

/-- What a step's credential says for a registry. -/
inductive Says (registry : Text) (data : EntryMap Text Bytes) (auth : Auth) : Prop
  | config {raw : Bytes} {auths : EntryMap Text DockerEntry} {key : Text} {e : DockerEntry}
      (hraw : data.lookup configKey = some raw)
      (hauths : DockerConfigLibrary.auths raw = some auths) (hnames : Names registry key)
      (hentry : auths.lookup key = some e) (hgrants : e.Grants auth)
  | fields {username password : Bytes} (hraw : data.lookup configKey = none)
      (husername : data.lookup "username".toList = some username)
      (hpassword : data.lookup "password".toList = some password)
      (huser : auth.username = utf8Lossy username ∧ auth.username ≠ [])
      (hpass : auth.password = utf8Lossy password ∧ auth.password ≠ [])

theorem says_of_authFor {debug : Text → Text} {registry : Text} {data : EntryMap Text Bytes}
    {auth : Auth} (h : authFor debug registry data = .ok auth) : Says registry data auth := by
  unfold authFor at h
  split at h
  · next raw hraw =>
      split at h
      · next found hfound =>
          cases h
          rcases dockerConfigAuth_own hfound with ⟨auths, key, e, hauths, hnames, hentry, hgrants⟩
          exact .config hraw hauths hnames hentry hgrants
      · cases h
  · next hraw =>
      split at h
      · next username password husername hpassword =>
          cases h
          rcases field_eq_some.1 husername with ⟨huser, ubytes, hubytes, rfl⟩
          rcases field_eq_some.1 hpassword with ⟨hpass, pbytes, hpbytes, rfl⟩
          exact .fields hraw hubytes hpbytes ⟨rfl, huser⟩ ⟨rfl, hpass⟩
      · cases h

theorem authFor_config (debug : Text → Text) (registry : Text) (data : EntryMap Text Bytes)
    (raw : Bytes) : authFor debug registry (data.insert configKey raw) =
      match dockerConfigAuth registry raw with
      | some auth => .ok auth
      | none => .error ("the .dockerconfigjson carries no entry for ".toList ++ debug registry) := by
  have hraw : (data.insert configKey raw).lookup ".dockerconfigjson".toList = some raw :=
    AList.lookup_insert _
  unfold authFor
  rw [hraw]

end DockerConfig
end FunctionWasm
