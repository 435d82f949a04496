import TalosP2P.Support.Base64
import TalosP2P.Support.Go
import TalosP2P.Zerotier.Consistency

/-!
# Zerotier — Main

The whole start of the ZeroTier wrapper: the identity, the planet file and the joined networks, and
then `zerotier-one` in its place.  Files stand under the paths the wrapper gives the system, which are
all clean.  A start can be stopped at any operation, and between two starts `zerotier-one` itself
writes the state directory.

* `exists_confFile`: no value of `ZEROTIER_NETWORK` leads to an identity file or to the planet.
* `main_keeps`: what no start changes, wherever it stops.
* `main_execs`: what a start that comes to `zerotier-one` leaves.
* `one_identity`: all starts of a history that come to `zerotier-one` do so with one identity.
-/

namespace TalosP2P.Zerotier

open Files History Python

/-- The files, by path. -/
abbrev FileSystem := Dir Bytes UInt8

def zerotierPath : Bytes := encodeUtf8 "/var/lib/zerotier-one"

def identityPath : Bytes := encodeUtf8 "/var/lib/zerotier-one/identity.secret"

def planetPath : Bytes := encodeUtf8 "/var/lib/zerotier-one/planet"

def identityPubPath : Bytes := encodeUtf8 "/var/lib/zerotier-one/identity.public"

/-- The path of an identity file. -/
def Path.path : Path → Bytes
  | .identityPath => Zerotier.identityPath
  | .identityPubPath => Zerotier.identityPubPath

/-- The identity file of a path. -/
def identityFile (path : Bytes) : Option Path :=
  if path = identityPath then some .identityPath
  else if path = identityPubPath then some .identityPubPath
  else none

/-- The identity files among the others. -/
def stateDir (files : FileSystem) : StateDir := fun path => files path.path

/-! ### A start -/

/-- What becomes of the operations for one network. -/
structure Join where
  mkdir : Except Stop Unit
  openFile : Creation
  deriving DecidableEq, Repr

/-- What a start finds outside the files, and where it is stopped. -/
structure Start where
  mkdir : Except Stop Unit
  identity : Run
  /-- `ZEROTIER_PLANET`, empty when it is not set. -/
  planet : Bytes
  planetWrite : Outcome
  /-- `ZEROTIER_NETWORK`, empty when it is not set. -/
  network : Bytes
  /-- The operations for the networks, in their order. -/
  joins : Nat → Join
  exec : Except Stop Unit

/-- `networkConfDir` of `joinNetwork`. -/
def networkConfDir : Bytes := Go.join zerotierPath (encodeUtf8 "networks.d")

/-- `networkConfFile` of `joinNetwork`. -/
def networkConfFile (network : Bytes) : Bytes :=
  Go.join networkConfDir (network ++ encodeUtf8 ".conf")

def joinNetwork (network : Bytes) (join : Join) : Proc Bytes UInt8 Unit := do
  wrap "failed to create networks.d directory" (operation join.mkdir)
  -- a file that is there is no error
  let _ ← wrap "failed to create network conf file"
    (createExclusive (networkConfFile network) join.openFile)
  return ()

/-- The loop over the networks. -/
def joinNetworks (joins : Nat → Join) : List Bytes → Nat → Proc Bytes UInt8 Unit
  | [], _ => pure ()
  | network :: networks, k => do
    wrap "failed to join network" (joinNetwork network (joins k))
    joinNetworks joins networks (k + 1)

/-- The planet file, from `ZEROTIER_PLANET`. -/
def writePlanet (planet : Bytes) (outcome : Outcome) : Proc Bytes UInt8 Unit :=
  if planet ≠ [] then
    match Base64.decodeString planet with
    | .error si => throw (.failed ("failed to decode base64 planet from environment: " ++
        "illegal base64 data at input byte " ++ toString si))
    | .ok planet => wrap "failed to write planet file" (writeFile planetPath planet outcome)
  else pure ()

/-- The networks a start joins. -/
def Start.networks (s : Start) : List Bytes :=
  if s.network ≠ [] then s.network.splitOn 0x2c else []

/-- `main`: it returns where `zerotier-one` has taken its place. -/
def main (validate : Bytes → Option String) (s : Start) : Proc Bytes UInt8 Unit := do
  wrap "failed to create state directory" (operation s.mkdir)
  let _ ← wrap "identity configuration failed"
    (zoom Path.path identityFile (ensureIdentity validate s.identity))
  writePlanet s.planet s.planetWrite
  joinNetworks s.joins s.networks 0
  wrap "error executing zerotier-one" (operation s.exec)

/-! ### Paths -/

/-- **The files of the networks** end with `.conf`, wherever the name of the network leads. -/
theorem exists_confFile (network : Bytes) :
    ∃ front, networkConfFile network = front ++ encodeUtf8 ".conf" := by
  have happ : networkConfFile network =
      Go.clean ((networkConfDir ++ 0x2f :: network) ++ encodeUtf8 ".conf") := by
    rw [networkConfFile, Go.join, List.append_assoc, List.cons_append]
  rw [happ]
  exact Go.exists_clean_append _ (by decide) (by decide)

theorem confFile_ne {network path : Bytes} (h : ¬ encodeUtf8 ".conf" <:+ path) :
    networkConfFile network ≠ path := by
  rintro rfl
  obtain ⟨front, hfront⟩ := exists_confFile network
  exact h ⟨front, hfront.symm⟩

theorem confFile_ne_identityPath (network : Bytes) : networkConfFile network ≠ identityPath :=
  confFile_ne (by decide)

theorem confFile_ne_identityPubPath (network : Bytes) :
    networkConfFile network ≠ identityPubPath :=
  confFile_ne (by decide)

theorem confFile_ne_planetPath (network : Bytes) : networkConfFile network ≠ planetPath :=
  confFile_ne (by decide)

theorem identityFile_path (path : Path) : identityFile path.path = some path := by
  cases path with
  | identityPath => decide
  | identityPubPath => decide

theorem identityFile_eq_none {path : Bytes} (h₁ : path ≠ identityPath)
    (h₂ : path ≠ identityPubPath) : identityFile path = none := by
  rw [identityFile, if_neg h₁, if_neg h₂]

/-! ### What no start changes -/

/-- From `files` on, an identity stays as it is, and every file but the planet too: the only new ones
are empty and configure a network. -/
structure Grows (files files' : FileSystem) : Prop where
  identity : files identityPath ≠ none → files' identityPath = files identityPath ∧
    files' identityPubPath = files identityPubPath
  others : ∀ path, path ≠ identityPath → path ≠ identityPubPath → path ≠ planetPath →
    files' path = files path ∨
      files path = none ∧ files' path = some [] ∧ ∃ network, path = networkConfFile network

theorem Grows.refl (files : FileSystem) : Grows files files :=
  ⟨fun _ => ⟨rfl, rfl⟩, fun _ _ _ _ => .inl rfl⟩

theorem Grows.trans {a b c : FileSystem} (h : Grows a b) (h' : Grows b c) : Grows a c where
  identity hid := by
    obtain ⟨h₁, h₂⟩ := h.identity hid
    obtain ⟨h₁', h₂'⟩ := h'.identity (h₁.symm ▸ hid)
    exact ⟨h₁'.trans h₁, h₂'.trans h₂⟩
  others path hi hp hpl := by
    rcases h.others path hi hp hpl with heq | ⟨hnone, hnew, hconf⟩
    · rw [← heq]
      exact h'.others path hi hp hpl
    · rcases h'.others path hi hp hpl with heq' | ⟨hnone', -⟩
      · exact .inr ⟨hnone, heq'.trans hnew, hconf⟩
      · cases hnew.symm.trans hnone'

theorem keeps_bind {α β : Type} {proc : Proc Bytes UInt8 α} {f : α → Proc Bytes UInt8 β}
    (h : Keeps Grows proc) (hf : ∀ a, Keeps Grows (f a)) : Keeps Grows (proc >>= f) :=
  Keeps.bind (R := Grows) (fun _ _ _ => Grows.trans) h hf

variable {validate : Bytes → Option String} {s : Start} {files files' : FileSystem}

/-- What the identity step leaves, by the run on the identity files. -/
theorem on_ensureIdentity (validate : Bytes → Option String) (run : Run) (files : FileSystem) :
    ((zoom Path.path identityFile (ensureIdentity validate run)).on files).1 =
        outcome validate run (stateDir files) ∧
      stateDir ((zoom Path.path identityFile (ensureIdentity validate run)).on files).2 =
        after validate run (stateDir files) ∧
      ∀ path, path ≠ identityPath → path ≠ identityPubPath →
        ((zoom Path.path identityFile (ensureIdentity validate run)).on files).2 path = files path := by
  rw [on_zoom]
  refine ⟨rfl, ?_, fun path h₁ h₂ => ?_⟩
  · funext path
    simp only [stateDir, identityFile_path]
    rfl
  · simp only [identityFile_eq_none h₁ h₂]

theorem keeps_ensureIdentity (validate : Bytes → Option String) (run : Run) :
    Keeps Grows (zoom Path.path identityFile (ensureIdentity validate run)) := by
  intro files
  obtain ⟨-, hdir, hothers⟩ := on_ensureIdentity validate run files
  refine ⟨fun hid => ?_, fun path h₁ h₂ _ => .inl (hothers path h₁ h₂)⟩
  have hkept : after validate run (stateDir files) = stateDir files :=
    after_of_not_writes fun identity hw => hid hw.missing
  rw [hkept] at hdir
  exact ⟨congrFun hdir .identityPath, congrFun hdir .identityPubPath⟩

theorem grows_planet (files : FileSystem) (data : Option Bytes) :
    Grows files (Function.update files planetPath data) where
  identity _ := ⟨Function.update_of_ne (by decide) _ _, Function.update_of_ne (by decide) _ _⟩
  others path _ _ hpl := .inl (Function.update_of_ne hpl _ _)

theorem keeps_writePlanet (planet : Bytes) (outcome : Outcome) :
    Keeps Grows (writePlanet planet outcome) := by
  rw [writePlanet]
  split
  · cases Base64.decodeString planet with
    | error si => exact fun files => Grows.refl files
    | ok planet =>
        refine Keeps.wrap fun files => ?_
        rw [on_writeFile]
        exact grows_planet _ _
  · exact keeps_pure Grows.refl ()

theorem grows_conf (files : FileSystem) (network : Bytes) (creation : Creation) :
    Grows files (Function.update files (networkConfFile network)
      (creation.left (files (networkConfFile network)))) where
  identity _ := ⟨Function.update_of_ne (confFile_ne_identityPath network).symm _ _,
    Function.update_of_ne (confFile_ne_identityPubPath network).symm _ _⟩
  others path _ _ _ := by
    by_cases hpath : path = networkConfFile network
    · rw [hpath, Function.update_self]
      cases hold : files (networkConfFile network) with
      | some data => exact .inl (creation.left_some data)
      | none =>
          rcases creation.left_none with h | h
          · exact .inl h
          · exact .inr ⟨rfl, h, network, rfl⟩
    · exact .inl (Function.update_of_ne hpath _ _)

theorem keeps_joinNetworks (joins : Nat → Join) (networks : List Bytes) (k : Nat) :
    Keeps Grows (joinNetworks joins networks k) := by
  induction networks generalizing k with
  | nil => exact keeps_pure Grows.refl ()
  | cons network networks ih =>
      refine keeps_bind (Keeps.wrap ?_) fun _ => ih (k + 1)
      refine keeps_bind (keeps_operation Grows.refl _).wrap fun _ => ?_
      refine keeps_bind (Keeps.wrap fun files => ?_) fun _ => keeps_pure Grows.refl ()
      rw [on_createExclusive]
      exact grows_conf files network _

/-- **A start**, stopped anywhere: an identity stays as it is, and of the other files only the planet
changes. -/
theorem main_keeps (validate : Bytes → Option String) (s : Start) : Keeps Grows (main validate s) := by
  refine keeps_bind (keeps_operation Grows.refl _).wrap fun _ => ?_
  refine keeps_bind (keeps_ensureIdentity validate s.identity).wrap fun _ => ?_
  refine keeps_bind (keeps_writePlanet _ _) fun _ => ?_
  refine keeps_bind (keeps_joinNetworks _ _ _) fun _ => ?_
  exact (keeps_operation Grows.refl _).wrap

/-! ### A start that comes to `zerotier-one` -/

/-- What it leaves: an identity that was accepted, with both its files when it is new; the planet of
its environment, which is the one that was encoded, wherever the lines of the text were broken; and a
file for each network, unless its own exclusive open found something there that is no file. -/
structure Execs (validate : Bytes → Option String) (s : Start) (files files' : FileSystem) :
    Prop where
  identity : ∃ data, files' identityPath = some data ∧
    ((files identityPath = some data ∧ validate (trimSpace data) = none ∧
        files' identityPubPath = files identityPubPath) ∨
      (files identityPath = none ∧ s.identity.supplied = .ok data ∧ validate data = none ∧
        files' identityPubPath = some (publicPart data)))
  planet : (s.planet = [] ∧ files' planetPath = files planetPath) ∨
    ∃ planet, Base64.decodeString s.planet = .ok planet ∧ files' planetPath = some planet
  encoded : s.planet ≠ [] → ∀ planet,
    Base64.joined (s.planet.map fun c => Char.ofNat c.toNat) = Base64.encode planet →
      files' planetPath = some planet
  joined : ∀ k network, s.networks[k]? = some network →
    files' (networkConfFile network) ≠ none ∨ (s.joins k).openFile = .present
  others : ∀ path, path ≠ identityPath → path ≠ identityPubPath → path ≠ planetPath →
    files' path = files path ∨ files path = none ∧ files' path = some [] ∧
      ∃ network ∈ s.networks, path = networkConfFile network

theorem writePlanet_of_ok {planet : Bytes} {outcome : Outcome}
    (h : (writePlanet planet outcome).on files = (.ok (), files')) :
    (planet = [] ∧ files' = files) ∨ ∃ data, Base64.decodeString planet = .ok data ∧
      files' = Function.update files planetPath (some data) := by
  rw [writePlanet] at h
  split at h
  · refine .inr ?_
    cases hdecode : Base64.decodeString planet with
    | error si =>
        rw [hdecode] at h
        cases h
    | ok data =>
        rw [hdecode] at h
        simp only [on_wrap_eq_ok_iff, on_writeFile] at h
        cases outcome with
        | done =>
            cases h
            exact ⟨data, rfl, rfl⟩
        | stopped stop written => cases h
  · rename_i hset
    cases h
    exact .inl ⟨not_not.mp hset, rfl⟩

/-- A network that is joined has its file, and no other file changes. -/
theorem joinNetwork_of_ok {network : Bytes} {join : Join}
    (h : (joinNetwork network join).on files = (.ok (), files')) :
    files' = Function.update files (networkConfFile network)
        (join.openFile.left (files (networkConfFile network))) ∧
      (join.openFile = .done ∨ join.openFile = .present) := by
  rw [joinNetwork, on_bind_eq_ok_iff] at h
  obtain ⟨_, files₁, hmkdir, h⟩ := h
  rw [on_wrap_eq_ok_iff, on_operation] at hmkdir
  obtain ⟨-, rfl⟩ := Prod.mk.inj hmkdir
  rw [on_bind_eq_ok_iff] at h
  obtain ⟨created, files₂, hopen, h⟩ := h
  rw [on_wrap_eq_ok_iff, on_createExclusive] at hopen
  cases h
  obtain ⟨hreturned, rfl⟩ := Prod.mk.inj hopen
  refine ⟨rfl, ?_⟩
  cases hcreation : join.openFile with
  | done => exact .inl rfl
  | present => exact .inr rfl
  | stopped stop created =>
      rw [hcreation] at hreturned
      cases hreturned

/-- A loop over the networks that ends well has made the files of all of them, and no others. -/
theorem joinNetworks_of_ok {joins : Nat → Join} {networks : List Bytes} {k : Nat}
    (h : (joinNetworks joins networks k).on files = (.ok (), files')) :
    (∀ i network, networks[i]? = some network →
        files' (networkConfFile network) ≠ none ∨ (joins (k + i)).openFile = .present) ∧
      ∀ path, files' path = files path ∨ files path = none ∧ files' path = some [] ∧
        ∃ network ∈ networks, path = networkConfFile network := by
  induction networks generalizing k files with
  | nil =>
      cases h
      exact ⟨fun i n hn => (by cases hn), fun _ => .inl rfl⟩
  | cons network networks ih =>
      rw [joinNetworks, on_bind_eq_ok_iff] at h
      obtain ⟨_, files₁, hjoin, hrest⟩ := h
      rw [on_wrap_eq_ok_iff] at hjoin
      obtain ⟨rfl, hcreation⟩ := joinNetwork_of_ok hjoin
      obtain ⟨hjoined, hothers⟩ := ih hrest
      constructor
      · intro i n hn
        cases i with
        | zero =>
            obtain rfl : network = n := Option.some.inj hn
            rcases hcreation with hdone | hpresent
            · refine .inl fun hnone => ?_
              rcases hothers (networkConfFile network) with hkept | ⟨hmissing, -⟩
              · rw [Function.update_self, hdone, hnone] at hkept
                cases hkept
              · rw [Function.update_self, hdone] at hmissing
                cases hmissing
            · exact .inr hpresent
        | succ i =>
            rw [← Nat.add_assoc, Nat.add_right_comm]
            exact hjoined i n hn
      · intro path
        by_cases hpath : path = networkConfFile network
        · rcases (grows_conf files network (joins k).openFile).others path
            (hpath ▸ confFile_ne_identityPath network) (hpath ▸ confFile_ne_identityPubPath network)
            (hpath ▸ confFile_ne_planetPath network) with hkept | ⟨hnone, hnew, -⟩
          · rw [← hkept]
            rcases hothers path with h | ⟨hmissing, hnew, n, hn, hconf⟩
            · exact .inl h
            · exact .inr ⟨hmissing, hnew, n, List.mem_cons_of_mem _ hn, hconf⟩
          · rcases hothers path with h | ⟨hmissing, -⟩
            · exact .inr ⟨hnone, h.trans hnew, network, List.mem_cons_self, hpath⟩
            · cases hnew.symm.trans hmissing
        · have hkept := Function.update_of_ne hpath
            ((joins k).openFile.left (files (networkConfFile network))) files
          rcases hothers path with h | ⟨hmissing, hnew, n, hn, hconf⟩
          · exact .inl (h.trans hkept)
          · exact .inr ⟨hkept.symm.trans hmissing, hnew, n, List.mem_cons_of_mem _ hn, hconf⟩

/-- A run that succeeds accepts the identity that is there, or writes one with both its files. -/
theorem identity_of_ok {run : Run} {dir : StateDir} {source : IdentitySource}
    (h : outcome validate run dir = .ok source) :
    ∃ data, after validate run dir .identityPath = some data ∧
      ((dir .identityPath = some data ∧ validate (trimSpace data) = none ∧
          after validate run dir .identityPubPath = dir .identityPubPath) ∨
        (dir .identityPath = none ∧ run.supplied = .ok data ∧ validate data = none ∧
          after validate run dir .identityPubPath = some (publicPart data))) := by
  by_cases hw : ∃ identity, Writes validate run dir identity
  · obtain ⟨identity, hw⟩ := hw
    obtain ⟨hsecret, hpublic⟩ := after_of_writes hw
    obtain ⟨hd, hd'⟩ := done_of_writes hw h
    rw [hd] at hsecret
    rw [if_pos hd, hd'] at hpublic
    exact ⟨identity, hsecret, .inr ⟨hw.missing, hw.supplied, hw.accepted, hpublic⟩⟩
  · rw [after_of_not_writes (not_exists.mp hw)]
    rcases ensureIdentity_of_not_writes (not_exists.mp hw) with
      ⟨stop, hrun⟩ | ⟨data, hdata, hv, -⟩
    · rw [outcome, hrun] at h
      cases h
    · exact ⟨data, hdata, .inl ⟨hdata, hv, rfl⟩⟩

/-- **A start that comes to `zerotier-one`.** -/
theorem main_execs (h : (main validate s).on files = (.ok (), files')) :
    Execs validate s files files' := by
  rw [main, on_bind_eq_ok_iff] at h
  obtain ⟨_, files₁, hmkdir, h⟩ := h
  rw [on_wrap_eq_ok_iff, on_operation] at hmkdir
  obtain ⟨-, rfl⟩ := Prod.mk.inj hmkdir
  rw [on_bind_eq_ok_iff] at h
  obtain ⟨source, files₂, hidentity, h⟩ := h
  rw [on_bind_eq_ok_iff] at h
  obtain ⟨_, files₃, hplanet, h⟩ := h
  rw [on_bind_eq_ok_iff] at h
  obtain ⟨_, files₄, hjoin, hexec⟩ := h
  rw [on_wrap_eq_ok_iff, on_operation] at hexec
  obtain ⟨-, rfl⟩ := Prod.mk.inj hexec
  rw [on_wrap_eq_ok_iff] at hidentity
  obtain ⟨hout, hdir, hkept⟩ := on_ensureIdentity validate s.identity files
  rw [hidentity] at hout hdir hkept
  obtain ⟨hjoined, hothers⟩ := joinNetworks_of_ok hjoin
  -- The later steps leave the identity files, and the joins leave the planet.
  have hplanet' : ∀ path, path ≠ planetPath → files₃ path = files₂ path := by
    intro path hne
    rcases writePlanet_of_ok hplanet with ⟨-, rfl⟩ | ⟨data, -, rfl⟩
    · rfl
    · exact Function.update_of_ne hne _ _
  have hconf : ∀ path, (∀ network, networkConfFile network ≠ path) → files₄ path = files₃ path := by
    intro path hne
    rcases hothers path with h | ⟨-, -, network, -, rfl⟩
    · exact h
    · exact absurd rfl (hne network)
  have hsecret : files₄ identityPath = files₂ identityPath :=
    (hconf _ confFile_ne_identityPath).trans (hplanet' _ (by decide))
  have hpublic : files₄ identityPubPath = files₂ identityPubPath :=
    (hconf _ confFile_ne_identityPubPath).trans (hplanet' _ (by decide))
  have hplanet₄ : files₄ planetPath = files₃ planetPath := hconf _ confFile_ne_planetPath
  refine ⟨?_, ?_, fun hset planet hencoded => ?_, ?_, fun path h₁ h₂ h₃ => ?_⟩
  · rw [hsecret, hpublic]
    have hsecret₂ : files₂ identityPath = after validate s.identity (stateDir files) .identityPath :=
      congrFun hdir .identityPath
    have hpublic₂ : files₂ identityPubPath =
        after validate s.identity (stateDir files) .identityPubPath := congrFun hdir .identityPubPath
    rw [hsecret₂, hpublic₂]
    exact identity_of_ok hout.symm
  · rw [hplanet₄]
    rcases writePlanet_of_ok hplanet with ⟨hunset, rfl⟩ | ⟨data, hdata, rfl⟩
    · exact .inl ⟨hunset, hkept _ (by decide) (by decide)⟩
    · exact .inr ⟨data, hdata, Function.update_self _ _ _⟩
  · rw [hplanet₄]
    rcases writePlanet_of_ok hplanet with ⟨hunset, -⟩ | ⟨data, hdata, rfl⟩
    · exact absurd hunset hset
    · cases hdata.symm.trans (Base64.decodeString_of_joined hencoded)
      exact Function.update_self _ _ _
  · intro k network hk
    have hnetwork := hjoined k network hk
    rwa [Nat.zero_add] at hnetwork
  · have hstart : files₃ path = files path := (hplanet' path h₃).trans (hkept path h₁ h₂)
    rw [← hstart]
    exact hothers path

/-- No file at all. -/
def noFiles : FileSystem := fun _ => none

/-- A start with the identity `a:0:b:c`, the planet `hi` and two networks, one of which leads out of
`networks.d`. -/
def sampleStart : Start where
  mkdir := .ok ()
  identity := fromEnvironment .done
  planet := encodeUtf8 "aGk=\n"
  planetWrite := .done
  network := encodeUtf8 "8056c2e21c000001,../x"
  joins _ := ⟨.ok (), .done⟩
  exec := .ok ()

theorem sampleStart_execs : (main fourParts sampleStart).on noFiles =
    (.ok (), ((main fourParts sampleStart).on noFiles).2) := by
  refine Prod.ext ?_ rfl
  decide +kernel

theorem main_execs_sample : Execs fourParts sampleStart noFiles
    ((main fourParts sampleStart).on noFiles).2 :=
  main_execs sampleStart_execs

/-! ### Histories -/

/-- What happens to the files: a start, or what `zerotier-one` leaves. -/
inductive Event where
  | start (s : Start)
  | daemon (files : FileSystem)

/-- `zerotier-one` does not change an identity. -/
def Step (validate : Bytes → Option String) (files : FileSystem) (event : Event)
    (files' : FileSystem) : Prop :=
  match event with
  | .start s => files' = ((main validate s).on files).2
  | .daemon files₁ => files' = files₁ ∧
      (files identityPath ≠ none → files₁ identityPath = files identityPath)

/-- An identity stays over any history. -/
theorem identity_of_steps {events : List Event} {data : Bytes} (hdata : files identityPath = some data)
    (h : Steps (Step validate) files events files') : files' identityPath = some data := by
  refine h.invariant (I := fun files => files identityPath = some data) hdata ?_
  intro f event f' hf hstep
  cases event with
  | start s =>
      obtain rfl := hstep
      rw [((main_keeps validate s f).identity (hf ▸ Option.some_ne_none data)).1, hf]
  | daemon files₁ =>
      obtain ⟨rfl, hkept⟩ := hstep
      rw [hkept (hf ▸ Option.some_ne_none data), hf]

/-- **One identity.**  Any two starts of a history that come to `zerotier-one` do so with one identity,
whatever happens between them: other starts, stopped at any operation and with any environment, and
`zerotier-one` itself.  The later one has validated it. -/
theorem one_identity {s t : Start} {events : List Event} {files₁ files₂ : FileSystem}
    (hs : (main validate s).on files = (.ok (), files₁))
    (hsteps : Steps (Step validate) files₁ events files₂)
    (ht : (main validate t).on files₂ = (.ok (), files')) :
    ∃ data, files₁ identityPath = some data ∧ files' identityPath = some data ∧
      validate (trimSpace data) = none := by
  obtain ⟨data, hdata, -⟩ := (main_execs hs).identity
  have hbefore := identity_of_steps hdata hsteps
  obtain ⟨data', hdata', ⟨hold, hvalid, -⟩ | ⟨hnone, -⟩⟩ := (main_execs ht).identity
  · cases hbefore.symm.trans hold
    exact ⟨data, hdata, hdata', hvalid⟩
  · cases hbefore.symm.trans hnone

/-- A start with another identity, which is killed when it opens the file of its network. -/
def killedStart : Start where
  mkdir := .ok ()
  identity := ⟨.ok (), .ok (), encodeUtf8 "d:0:e:f", .ok [], .done, .done⟩
  planet := []
  planetWrite := .done
  network := encodeUtf8 "8056c2e21c000002"
  joins _ := ⟨.ok (), .stopped .killed true⟩
  exec := .ok ()

theorem one_identity_killed : ∃ data : Bytes,
    ((main fourParts sampleStart).on noFiles).2 identityPath = some data ∧
      ((main fourParts sampleStart).on ((main fourParts killedStart).on
        ((main fourParts sampleStart).on noFiles).2).2).2 identityPath = some data := by
  have hagain : (main fourParts sampleStart).on ((main fourParts killedStart).on
      ((main fourParts sampleStart).on noFiles).2).2 = (.ok (), _) :=
    Prod.ext (by decide +kernel) rfl
  obtain ⟨data, h₁, h₂, -⟩ := one_identity sampleStart_execs
    (.snoc .nil (show Step fourParts _ (.start killedStart) _ from rfl)) hagain
  exact ⟨data, h₁, h₂⟩

end TalosP2P.Zerotier
