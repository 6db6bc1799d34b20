import Zeus.DecisionKernel.Canonicalization
import Zeus.DecisionKernel.Verification
import Zeus.Lib.KeyedTable

/-! `insert_idempotent` looks a certificate up by its type, key, mode and decision time. Nothing
updates or deletes a row. -/

namespace Zeus.DecisionKernel

open CheckedFold Refusal

structure SemanticIdentity where
  (certificateType semanticKey mode : String)
  decisionTime : Instant
  deriving DecidableEq

def CertificateHeader.identity (header : CertificateHeader) : SemanticIdentity :=
  ⟨header.certificateType, header.semanticKey, header.mode, header.decisionTime⟩

/-- A row of `decision_certificates`. -/
structure CertificateRow where
  header : CertificateHeader
  payloadJson : String
  deriving DecidableEq

/-- A row of `decision_certificate_edges`. -/
structure EdgeRow where
  childCertificateId : String
  edge : ParentEdge
  deriving DecidableEq

def EdgeRow.key (row : EdgeRow) : String × String × String :=
  (row.childCertificateId, row.edge.role, row.edge.certificateHash)

structure Ledger where
  rows : List CertificateRow
  edges : List EdgeRow
  ids : (rows.map fun row => row.header.certificateId).Nodup
  hashes : (rows.map fun row => row.header.certificateHash).Nodup
  identities : (rows.map fun row => row.header.identity).Nodup

def Ledger.empty : Ledger := ⟨[], [], .nil, .nil, .nil⟩

structure LedgerEnv extends Externals where
  json : JsonModule
  texts : ValueTexts
  /-- The dict that a payload stands for. -/
  members : Payload → Value
  canonical : ∀ payload, payloadJson payload = json.canonicalJson texts (members payload)
  verifyForPersistence : DecisionCertificate → Except VerificationError Unit

inductive SemanticDrift where
  | conflict (identity : SemanticIdentity) (existingHash newHash : String)
  | missingAfterMatch (certificateId : String)
  | payloadCorrupt (certificateId : String)
  | payloadHashCorrupt (certificateId : String)
  deriving DecidableEq

inductive IntegrityError where
  | mode | certificateId | certificateHash | identity
  deriving DecidableEq

inductive LedgerError where
  | verification (error : VerificationError)
  | semanticDrift (drift : SemanticDrift)
  | integrity (error : IntegrityError)
  deriving DecidableEq

variable (env : LedgerEnv)

/-- `stable_hash` of a parsed payload. -/
def LedgerEnv.stableHashOf (value : Value) : String :=
  env.sha256 (env.json.canonicalJson env.texts value)

namespace Ledger

def auditExistingPayloadHash (ledger : Ledger) (certificateId : String) : Except LedgerError Unit :=
  match ledger.rows.find? fun row => row.header.certificateId = certificateId with
  | none => .error (.semanticDrift (.missingAfterMatch certificateId))
  | some row =>
    match env.json.loads row.payloadJson with
    | none => .error (.semanticDrift (.payloadCorrupt certificateId))
    | some payload =>
      if env.stableHashOf payload = row.header.payloadHash then .ok ()
      else .error (.semanticDrift (.payloadHashCorrupt certificateId))

/-- `_persist_edges`: an edge that is there is ignored. -/
def persistEdges (ledger : Ledger) (cert : DecisionCertificate) : Ledger :=
  { ledger with
    edges := cert.header.parentEdges.foldl
      (fun edges edge => let row : EdgeRow := ⟨cert.header.certificateId, edge⟩
      if row.key ∈ edges.map EdgeRow.key then edges else edges ++ [row]) ledger.edges }

def insertRow (ledger : Ledger) (row : CertificateRow) : Except IntegrityError Ledger :=
  if row.header.mode ≠ "LIVE" then .error .mode
  else if id : row.header.certificateId ∈ ledger.rows.map fun row => row.header.certificateId then
    .error .certificateId
  else if hash : row.header.certificateHash ∈
    ledger.rows.map fun row => row.header.certificateHash then
    .error .certificateHash
  else if identity : row.header.identity ∈ ledger.rows.map fun row => row.header.identity then
    .error .identity
  else .ok {
    rows := ledger.rows ++ [row]
    edges := ledger.edges
    ids := by simpa using ledger.ids.concat id
    hashes := by simpa using ledger.hashes.concat hash
    identities := by simpa using ledger.identities.concat identity }

def insertVerified (ledger : Ledger) (cert : DecisionCertificate) :
    Except LedgerError (String × Ledger) :=
  match ledger.rows.find? fun row => row.header.identity = cert.header.identity with
  | some existing =>
    if existing.header.certificateHash = cert.header.certificateHash then do
      ledger.auditExistingPayloadHash env existing.header.certificateId
      return (existing.header.certificateId, ledger.persistEdges cert)
    else .error (.semanticDrift (.conflict cert.header.identity existing.header.certificateHash
      cert.header.certificateHash))
  | none => do
      let stored ← (ledger.insertRow ⟨cert.header, env.payloadJson cert.payload⟩).mapError
        .integrity
      return (cert.header.certificateId, stored.persistEdges cert)

def insertIdempotent (ledger : Ledger) (cert : DecisionCertificate) (preverified : Bool) :
    Except LedgerError (String × Ledger) := do
  if preverified then pure () else (env.verifyForPersistence cert).mapError .verification
  ledger.insertVerified env cert

def apply (ledger : Ledger) (call : DecisionCertificate × Bool) : Ledger :=
  ((ledger.insertIdempotent env call.1 call.2).map Prod.snd).toOption.getD ledger

def run (ledger : Ledger) (calls : List (DecisionCertificate × Bool)) : Ledger :=
  calls.foldl (apply env) ledger

end Ledger

def CertificateRow.Sound (row : CertificateRow) : Prop :=
  (env.json.loads row.payloadJson).map env.stableHashOf = some row.header.payloadHash

namespace Ledger

variable {env} {ledger stored : Ledger} {cert : DecisionCertificate} {row : CertificateRow}
  {id : String}

section
variable (member : row ∈ ledger.rows)

include member

theorem find?_identity :
    ledger.rows.find? (fun other => other.header.identity = row.header.identity) = some row :=
  @KeyedTable.find_of_mem _ _ _ _ ⟨ledger.rows, ledger.identities⟩ _ member

theorem find?_certificateId :
    ledger.rows.find? (fun other => other.header.certificateId = row.header.certificateId) =
      some row :=
  @KeyedTable.find_of_mem _ _ _ _ ⟨ledger.rows, ledger.ids⟩ _ member

theorem audit_of_sound (sound : row.Sound env) :
    ledger.auditExistingPayloadHash env row.header.certificateId = .ok () := by
  obtain ⟨pl, parsed, hash⟩ := Option.map_eq_some_iff.mp sound
  simp only [auditExistingPayloadHash, find?_certificateId member, parsed, if_pos hash]

theorem audit_of_not_sound (corrupt : ¬ row.Sound env) :
    ∃ drift, ledger.auditExistingPayloadHash env row.header.certificateId =
        .error (.semanticDrift drift) := by
  unfold CertificateRow.Sound at corrupt
  simp only [auditExistingPayloadHash, find?_certificateId member]
  cases parsed : env.json.loads row.payloadJson with
  | none => exact ⟨_, rfl⟩
  | some pl =>
    rw [parsed, Option.map_some, Option.some_inj] at corrupt
    simp only [if_neg corrupt]
    exact ⟨_, rfl⟩

theorem insertVerified_of_stored (same : row.header.identity = cert.header.identity)
    (hash : row.header.certificateHash = cert.header.certificateHash) (sound : row.Sound env) :
    ledger.insertVerified env cert = .ok (row.header.certificateId, ledger.persistEdges cert) := by
  have hf := find?_identity member
  rw [same] at hf
  simp only [insertVerified, hf, if_pos hash, audit_of_sound member sound]
  rfl
end

theorem insertVerified_drift_iff :
    (∃ drift, ledger.insertVerified env cert = .error (.semanticDrift drift)) ↔
      ∃ row ∈ ledger.rows, row.header.identity = cert.header.identity ∧
        (row.header.certificateHash ≠ cert.header.certificateHash ∨ ¬ row.Sound env) := by
  constructor
  · rintro ⟨drift, raised⟩
    cases hf : ledger.rows.find? fun row => row.header.identity = cert.header.identity with
    | none =>
      simp only [insertVerified, hf] at raised
      cases ins : ledger.insertRow ⟨cert.header, env.payloadJson cert.payload⟩ with
      | ok next =>
        rw [ins] at raised
        cases raised
      | error error =>
        rw [ins] at raised
        cases raised
    | some row =>
      have member := List.mem_of_find?_eq_some hf
      have same : row.header.identity = cert.header.identity := by simpa using List.find?_some hf
      refine ⟨row, member, same, ?_⟩
      by_contra fine
      obtain ⟨hash, sound⟩ := not_or.mp fine
      rw [insertVerified_of_stored member same (not_not.mp hash) (not_not.mp sound)] at raised
      cases raised
  · rintro ⟨row, member, same, conflict⟩
    have hf := find?_identity member
    rw [same] at hf
    by_cases hash : row.header.certificateHash = cert.header.certificateHash
    · obtain ⟨drift, raised⟩ := audit_of_not_sound member (conflict.resolve_left (not_not.mpr hash))
      refine ⟨drift, ?_⟩
      simp only [insertVerified, hf, if_pos hash, raised]
      rfl
    · simp only [insertVerified, hf, if_neg hash]
      exact ⟨_, rfl⟩

theorem insertRow_ok (ins : ledger.insertRow row = .ok stored) :
    stored.rows = ledger.rows ++ [row] := by
  unfold insertRow at ins
  split_ifs at ins
  cases ins
  rfl

theorem insertVerified_ok (done : ledger.insertVerified env cert = .ok (id, stored)) :
    (stored.rows = ledger.rows ∧
      ∃ row ∈ ledger.rows, row.header.identity = cert.header.identity ∧
        row.header.certificateHash = cert.header.certificateHash ∧
        row.Sound env ∧
        row.header.certificateId = id) ∨
    stored.rows = ledger.rows ++ [⟨cert.header, env.payloadJson cert.payload⟩] ∧
    cert.header.certificateId = id := by
  cases hf : ledger.rows.find? fun row => row.header.identity = cert.header.identity with
  | some row =>
    have member := List.mem_of_find?_eq_some hf
    have same : row.header.identity = cert.header.identity := by simpa using List.find?_some hf
    have fine : ¬ (row.header.certificateHash ≠ cert.header.certificateHash ∨ ¬ row.Sound env) := by
      intro conflict
      obtain ⟨drift, raised⟩ := insertVerified_drift_iff.mpr ⟨row, member, same, conflict⟩
      rw [done] at raised
      cases raised
    obtain ⟨hash, sound⟩ := not_or.mp fine
    rw [insertVerified_of_stored member same (not_not.mp hash) (not_not.mp sound)] at done
    cases done
    exact .inl ⟨rfl, row, member, same, not_not.mp hash, not_not.mp sound, rfl⟩
  | none =>
    simp only [insertVerified, hf, bind_eq_ok, mapError_eq_ok] at done
    obtain ⟨next, ins, done⟩ := done
    cases done
    have rows := insertRow_ok ins
    exact .inr ⟨rows, rfl⟩

def Verified (env : LedgerEnv) (cert : DecisionCertificate) (preverified : Bool) : Prop :=
  preverified = true ∨ env.verifyForPersistence cert = .ok ()

theorem insertIdempotent_of_verified {prev : Bool} (verified : Verified env cert prev) :
    ledger.insertIdempotent env cert prev = ledger.insertVerified env cert := by
  unfold insertIdempotent
  rcases verified with rfl | passes
  · rfl
  · rw [passes]
    cases prev <;> rfl

theorem verified_of_insert {prev : Bool} {ans : String × Ledger}
    (done : ledger.insertIdempotent env cert prev = .ok ans) : Verified env cert prev := by
  cases prev with
  | true => exact .inl rfl
  | false =>
    obtain ⟨_, passes, -⟩ := bind_eq_ok.mp done
    exact .inr (mapError_eq_ok.mp passes)

theorem not_verified {prev : Bool} (refused : ¬ Verified env cert prev) :
    ∃ error, ledger.insertIdempotent env cert prev = .error (.verification error) := by
  obtain ⟨notPre, fails⟩ := not_or.mp refused
  cases prev with
  | true => exact absurd rfl notPre
  | false =>
    cases out : env.verifyForPersistence cert with
    | ok _ => exact absurd out fails
    | error error =>
      refine ⟨error, ?_⟩
      simp only [insertIdempotent, out]
      rfl

theorem rows_apply (ledger : Ledger) (call : DecisionCertificate × Bool) :
    (ledger.apply env call).rows = ledger.rows ∨
    (ledger.apply env call).rows =
      ledger.rows ++ [⟨call.1.header, env.payloadJson call.1.payload⟩] := by
  unfold apply
  cases out : ledger.insertIdempotent env call.1 call.2 with
  | error error => exact .inl rfl
  | ok ans =>
    rw [insertIdempotent_of_verified (verified_of_insert out)] at out
    rcases insertVerified_ok out with ⟨same, -⟩ | ⟨added, -⟩
    · exact .inl same
    · exact .inr added

theorem mem_run (calls : List (DecisionCertificate × Bool)) (member : row ∈ ledger.rows) :
    row ∈ (ledger.run env calls).rows := by
  induction calls generalizing ledger with
  | nil => exact member
  | cons call rest ih =>
    show row ∈ ((ledger.apply env call).run env rest).rows
    refine ih ?_
    rcases rows_apply ledger call with same | added
    · rwa [same]
    · rw [added]
      exact List.mem_append_left _ member

theorem sound_run (calls : List (DecisionCertificate × Bool))
    (sound : ∀ row ∈ ledger.rows, row.Sound env)
    (honest : ∀ call ∈ calls,
        (⟨call.1.header, env.payloadJson call.1.payload⟩ : CertificateRow).Sound env) :
    ∀ row ∈ (ledger.run env calls).rows, row.Sound env := by
  induction calls generalizing ledger with
  | nil => exact sound
  | cons call rest ih =>
    obtain ⟨first, others⟩ := List.forall_mem_cons.mp honest
    show ∀ row ∈ ((ledger.apply env call).run env rest).rows, row.Sound env
    refine ih ?_ others
    rcases rows_apply ledger call with same | added
    · rwa [same]
    · rw [added]
      exact List.forall_mem_append.mpr ⟨sound, List.forall_mem_singleton.mpr first⟩

end Ledger

variable {env} {cert : DecisionCertificate}

/-- Python's json parses the canonical text of the payload back. -/
def LedgerEnv.RoundTrips (env : LedgerEnv) (payload : Payload) : Prop :=
  env.json.loads (env.json.dumps (normalize env.texts (env.members payload))) =
    some (normalize env.texts (env.members payload))

theorem buildCertificate_payload {ext : Externals} {args : BuildArgs}
    (built : buildCertificate ext args = .ok cert) : cert.payload = args.payload := by
  simp only [buildCertificate, bind_eq_ok] at built
  obtain ⟨_, -, _, -, _, -, _, -, built⟩ := built
  cases built
  rfl

theorem sound_of_built {args : BuildArgs} (built : buildCertificate env.toExternals args = .ok cert)
    (roundTrips : env.RoundTrips args.payload) :
    (⟨cert.header, env.payloadJson cert.payload⟩ : CertificateRow).Sound env := by
  obtain ⟨hash, -, -⟩ := buildCertificate_ok built
  have parsed := congrArg (Option.map env.sha256) (canonicalJson_loads roundTrips)
  rw [Option.map_map, Option.map_some] at parsed
  rw [CertificateRow.Sound, hash, buildCertificate_payload built, Externals.stableHash,
    env.canonical]
  exact parsed

def LedgerEnv.Persistable (env : LedgerEnv) (cert : DecisionCertificate) : Prop :=
  ∃ args, buildCertificate env.toExternals args = .ok cert ∧ env.RoundTrips args.payload

/-- Exactly one row has the hash of the certificate, and exactly one its identity. -/
def Ledger.HoldsOnce (ledger : Ledger) (cert : DecisionCertificate) : Prop :=
  (ledger.rows.filter fun row => row.header.certificateHash = cert.header.certificateHash).length =
    1 ∧ (ledger.rows.filter fun row => row.header.identity = cert.header.identity).length = 1

theorem Ledger.holdsOnce {ledger : Ledger} {row : CertificateRow} (member : row ∈ ledger.rows)
    (same : row.header.identity = cert.header.identity)
    (hash : row.header.certificateHash = cert.header.certificateHash) : ledger.HoldsOnce cert := by
  have byHash := KeyedTable.filter_key_eq_singleton ledger.hashes member
  have byIdentity := KeyedTable.filter_key_eq_singleton ledger.identities member
  rw [hash] at byHash
  rw [same] at byIdentity
  exact ⟨by rw [byHash]; rfl, by rw [byIdentity]; rfl⟩

/-- Canonical text is a fixed point of parsing and writing. In a ledger of built certificates an
insert of one raises drift exactly where another hash has its identity; once it has succeeded, every
later one returns the same id and the certificate has one row. -/
theorem persistence_is_idempotent (env : LedgerEnv) {args : BuildArgs} {cert : DecisionCertificate}
    (built : buildCertificate env.toExternals args = .ok cert)
    (roundTrips : env.RoundTrips args.payload) :
    (env.json.loads (env.payloadJson args.payload)).map (env.json.canonicalJson env.texts) =
      some (env.payloadJson args.payload) ∧
    (∀ calls : List (DecisionCertificate × Bool), (∀ call ∈ calls, env.Persistable call.1) →
        ∀ prev,
          (∃ drift, (Ledger.empty.run env calls).insertIdempotent env cert prev =
                  .error (.semanticDrift drift)) ↔
            Ledger.Verified env cert prev ∧
            ∃ row ∈ (Ledger.empty.run env calls).rows, row.header.identity = cert.header.identity ∧
              row.header.certificateHash ≠ cert.header.certificateHash) ∧
    ∀ ledger prev id stored, Ledger.insertIdempotent env ledger cert prev = .ok (id, stored) →
      ∀ calls : List (DecisionCertificate × Bool), (stored.run env calls).HoldsOnce cert ∧
        ∀ again, Ledger.Verified env cert again →
          ∃ next, (stored.run env calls).insertIdempotent env cert again = .ok (id, next) ∧
            next.rows = (stored.run env calls).rows := by
  have writes := sound_of_built built roundTrips
  refine ⟨?_, fun calls persistable prev => ?_, fun ledger prev id stored done calls => ?_⟩
  · rw [env.canonical]
    exact canonicalJson_loads roundTrips
  · have sound :=
      @Ledger.sound_run env Ledger.empty calls (by simp [Ledger.empty]) fun call member => by
      obtain ⟨args, isBuilt, parses⟩ := persistable call member
      exact sound_of_built isBuilt parses
    by_cases verified : Ledger.Verified env cert prev
    · rw [Ledger.insertIdempotent_of_verified verified, Ledger.insertVerified_drift_iff]
      constructor
      · rintro ⟨row, member, same, conflict⟩
        exact ⟨verified, row, member, same, conflict.resolve_right (not_not.mpr (sound row member))⟩
      · rintro ⟨-, row, member, same, hash⟩
        exact ⟨row, member, same, .inl hash⟩
    · obtain ⟨error, refused⟩ :=
        @Ledger.not_verified env (Ledger.empty.run env calls) cert prev verified
      simp [refused, verified]
  · have verified := Ledger.verified_of_insert done
    rw [Ledger.insertIdempotent_of_verified verified] at done
    obtain ⟨row, member, same, hash, sound, own⟩ :
      ∃ row ∈ stored.rows, row.header.identity = cert.header.identity ∧
        row.header.certificateHash = cert.header.certificateHash ∧
        row.Sound env ∧
        row.header.certificateId = id := by
      rcases Ledger.insertVerified_ok done with ⟨rows, stored⟩ | ⟨rows, own⟩
      · rwa [rows]
      · rw [rows]
        exact ⟨_, List.mem_append_right _ (List.mem_singleton_self _), rfl, rfl, writes, own⟩
    have kept : row ∈ (stored.run env calls).rows := Ledger.mem_run calls member
    refine ⟨Ledger.holdsOnce kept same hash,
      fun again passes => ⟨(stored.run env calls).persistEdges cert, ?_, rfl⟩⟩
    rw [Ledger.insertIdempotent_of_verified passes, ← own]
    exact Ledger.insertVerified_of_stored kept same hash sound

/-- JSON of an object with one text member; the payload is such an object. -/
def limitEnv : LedgerEnv where
  json := {
    dumps := fun value => match value with
      | .dict [(key, .str text)] => "\x7b\"" ++ key ++ "\":\"" ++ text ++ "\"\x7d"
      | _ => ""
    loads := fun text => match text.toList with
      | '\x7b' :: '\x22' :: rest =>
        let key := rest.takeWhile (· ≠ '\x22')
        let value := (rest.drop (key.length + 3)).takeWhile (· ≠ '\x22')
        some (.dict [(String.ofList key, .str (String.ofList value))])
      | _ => none }
  texts := ⟨fun _ => "", fun _ => ""⟩
  members payload := .dict [("limit", .str payload.rest)]
  payloadJson payload := "\x7b\"limit\":\"" ++ payload.rest ++ "\"\x7d"
  canonical _ := rfl
  hashInputJson input := input.certificateType ++ input.payloadHash
  sha256 text := text
  fromIsoformat _ := none
  verifyForPersistence _ := .ok ()

def limitArgs (limit : String) : BuildArgs := { sampleArgs with payload := { rest := limit } }

theorem limit_roundTrips :
    ∀ limit ∈ ["0.40", "0.90"], limitEnv.RoundTrips (limitArgs limit).payload := by
  simp only [List.forall_mem_cons]
  exact ⟨rfl, rfl, nofun⟩

theorem limit_persists :
    ∃ cert other stored, buildCertificate limitEnv.toExternals (limitArgs "0.40") = .ok cert ∧
      buildCertificate limitEnv.toExternals (limitArgs "0.90") = .ok other ∧
      Ledger.empty.insertIdempotent limitEnv cert true = .ok (cert.header.certificateId, stored) ∧
      (stored.run limitEnv [(other, true), (cert, false)]).HoldsOnce cert := by
  refine ⟨_, _, _, rfl, rfl, rfl, ?_⟩
  exact ((persistence_is_idempotent limitEnv rfl (limit_roundTrips "0.40" (by decide))).2.2
      Ledger.empty true _ _ rfl _).1

/-- The certificate that comes second to its identity is refused and has no row. -/
theorem second_identity_drifts :
    ∃ cert other, buildCertificate limitEnv.toExternals (limitArgs "0.40") = .ok cert ∧
      buildCertificate limitEnv.toExternals (limitArgs "0.90") = .ok other ∧
      limitEnv.Persistable cert ∧
      limitEnv.Persistable other ∧
      (∃ drift, (Ledger.empty.run limitEnv [(other, true)]).insertIdempotent limitEnv cert true =
            .error (.semanticDrift drift)) ∧
      ¬ (Ledger.empty.run limitEnv [(other, true), (cert, true)]).HoldsOnce cert := by
  refine ⟨_, _, rfl, rfl, ⟨_, rfl, limit_roundTrips "0.40" (by decide)⟩,
    ⟨_, rfl, limit_roundTrips "0.90" (by decide)⟩, ⟨_, rfl⟩, ?_⟩
  unfold Ledger.HoldsOnce
  decide +kernel

end Zeus.DecisionKernel
