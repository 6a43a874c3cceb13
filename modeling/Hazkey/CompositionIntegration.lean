import Hazkey.SnapshotManager

/-! The integration of a project with the compositions of a session: the revision that is
applied, the one that waits for the end of the composition, and what the converter is given. -/

namespace Hazkey

structure GrimodexIntegrationRevision where
  generation : Nat
  payload : Option GrimodexIntegrationPayload
  allowsLearning : Bool
  secureInput : Bool
  deriving DecidableEq

structure GrimodexCompositionGenerationPin where
  applied : Option GrimodexIntegrationRevision := none
  pending : Option GrimodexIntegrationRevision := none
  pinned : Option GrimodexIntegrationRevision := none

section

variable [CanonicalText]

def GrimodexIntegrationRevision.spelled (revision : GrimodexIntegrationRevision) :
    GrimodexIntegrationRevision :=
  { revision with payload := revision.payload.map (·.spelled) }

/-- Revisions are equal up to the spelling of their payloads. -/
def sameRevision (revision other : GrimodexIntegrationRevision) : Bool :=
  revision.spelled = other.spelled

end

namespace GrimodexCompositionGenerationPin

def isComposing (pin : GrimodexCompositionGenerationPin) : Bool := pin.pinned.isSome

def latestKnownRevision (pin : GrimodexCompositionGenerationPin) :
    Option GrimodexIntegrationRevision := pin.pending <|> pin.pinned <|> pin.applied

section

variable [CanonicalText]

/-- Of what is known already, and what is older, nothing comes. -/
def ignores (pin : GrimodexCompositionGenerationPin) (revision : GrimodexIntegrationRevision) :
    Bool :=
  pin.latestKnownRevision.any fun baseline =>
    revision.generation < baseline.generation || sameRevision revision baseline

/-- Methods change the pin, and give the revision that is to be applied. -/
def observe (pin : GrimodexCompositionGenerationPin) (revision : GrimodexIntegrationRevision) :
    GrimodexCompositionGenerationPin × Option GrimodexIntegrationRevision :=
  if pin.ignores revision then (pin, none)
  else if pin.isComposing then ({ pin with pending := some revision }, none)
  else ({ pin with applied := some revision, pending := none }, some revision)

def beginComposition (pin : GrimodexCompositionGenerationPin)
    (latest : GrimodexIntegrationRevision) :
    GrimodexCompositionGenerationPin × Option GrimodexIntegrationRevision :=
  if pin.isComposing then ((pin.observe latest).1, none)
  else ({ (pin.observe latest).1 with pinned := (pin.observe latest).1.applied },
    (pin.observe latest).2)

/-- What was pending is applied. -/
def release (pin : GrimodexCompositionGenerationPin) :
    GrimodexCompositionGenerationPin × Option GrimodexIntegrationRevision :=
  match pin.pending with
  | none => ({ pin with pinned := none }, none)
  | some next =>
    if pin.applied.any (sameRevision · next) then
      ({ pin with pinned := none, pending := none }, none)
    else ({ applied := some next, pending := none, pinned := none }, some next)

def endComposition (pin : GrimodexCompositionGenerationPin)
    (latest : GrimodexIntegrationRevision) :
    GrimodexCompositionGenerationPin × Option GrimodexIntegrationRevision :=
  if pin.isComposing then (pin.observe latest).1.release else pin.observe latest

end

def newestGeneration (pin : GrimodexCompositionGenerationPin)
    (revision : GrimodexIntegrationRevision) : Nat :=
  (pin.applied.toList ++ pin.pending.toList ++ pin.pinned.toList).foldl
    (fun newest known => max newest known.generation) revision.generation

def revoked (pin : GrimodexCompositionGenerationPin) (revision : GrimodexIntegrationRevision) :
    GrimodexIntegrationRevision where
  generation := pin.newestGeneration revision
  payload := none
  allowsLearning := false
  secureInput := true

def revokeImmediately [CanonicalText] (pin : GrimodexCompositionGenerationPin)
    (revision : GrimodexIntegrationRevision) :
    GrimodexCompositionGenerationPin × Option GrimodexIntegrationRevision :=
  if pin.applied.any (sameRevision · (pin.revoked revision)) then
    ({ pin with pending := none, pinned := none }, none)
  else ({ applied := some (pin.revoked revision), pending := none, pinned := none },
    some (pin.revoked revision))

end GrimodexCompositionGenerationPin

/-- What the controller asks of the converter. -/
inductive ApplierCall
  | stopComposition
  | abortSessionComposition
  | replaceDynamicDictionary (entries : List GrimodexMappedDictionaryEntry)
      (projectIndex : GrimodexProjectDictionaryIndex)

structure GrimodexCompositionIntegrationController where
  generationPin : GrimodexCompositionGenerationPin := {}
  activeConditions : GrimodexProjectConditions := .empty
  allowsLearning : Bool := true
  secureInput : Bool := false
  applierCalls : List ApplierCall := []

namespace GrimodexCompositionIntegrationController

def appliedRevision (controller : GrimodexCompositionIntegrationController) :
    Option GrimodexIntegrationRevision := controller.generationPin.applied

/-- What the calls to the applier have installed. -/
def installed (controller : GrimodexCompositionIntegrationController) :
    List GrimodexMappedDictionaryEntry × GrimodexProjectDictionaryIndex :=
  controller.applierCalls.foldl (fun dictionary call =>
    match call with
    | .replaceDynamicDictionary entries projectIndex => (entries, projectIndex)
    | .stopComposition | .abortSessionComposition => dictionary) ([], {})

def apply (controller : GrimodexCompositionIntegrationController)
    (revision : GrimodexIntegrationRevision) : GrimodexCompositionIntegrationController :=
  { controller with
    activeConditions := (revision.payload.map (·.conditions)).getD .empty
    allowsLearning := revision.allowsLearning
    secureInput := revision.secureInput
    applierCalls := controller.applierCalls ++
      [.replaceDynamicDictionary ((revision.payload.map (·.dictionaryEntries)).getD [])
        ((revision.payload.map (·.dictionaryIndex)).getD {})] }

/-- The revision that the pin gives, if it gives one. -/
def applyIfAny (controller : GrimodexCompositionIntegrationController) :
    GrimodexCompositionGenerationPin × Option GrimodexIntegrationRevision →
      GrimodexCompositionIntegrationController
  | (pin, none) => { controller with generationPin := pin }
  | (pin, some revision) => { controller with generationPin := pin }.apply revision

def called (controller : GrimodexCompositionIntegrationController) (call : ApplierCall) :
    GrimodexCompositionIntegrationController :=
  { controller with applierCalls := controller.applierCalls ++ [call] }

def secureRevisionIfNeeded (revision : GrimodexIntegrationRevision) :
    GrimodexIntegrationRevision :=
  if revision.secureInput then
    { generation := revision.generation, payload := none, allowsLearning := false,
      secureInput := true }
  else revision

variable [CanonicalText]

def revokeImmediately (controller : GrimodexCompositionIntegrationController)
    (revision : GrimodexIntegrationRevision) : GrimodexCompositionIntegrationController :=
  (controller.called .abortSessionComposition).applyIfAny
    (controller.generationPin.revokeImmediately revision)

/-- The converter is stopped before another revision is applied. -/
def stopAndApply (controller : GrimodexCompositionIntegrationController) :
    GrimodexCompositionGenerationPin × Option GrimodexIntegrationRevision →
      GrimodexCompositionIntegrationController
  | (pin, none) => { controller with generationPin := pin }
  | (pin, some revision) =>
    (({ controller with generationPin := pin } : GrimodexCompositionIntegrationController).called
      .stopComposition).apply revision

def revokeIfNeeded (controller : GrimodexCompositionIntegrationController)
    (revision : GrimodexIntegrationRevision) : GrimodexCompositionIntegrationController :=
  if controller.secureInput then controller else controller.revokeImmediately revision

def prepareFirstInput (controller : GrimodexCompositionIntegrationController)
    (latest : GrimodexIntegrationRevision) : GrimodexCompositionIntegrationController :=
  if latest.secureInput then
    match (controller.revokeIfNeeded latest).generationPin.applied with
    | none => controller.revokeIfNeeded latest
    | some applied =>
      { controller.revokeIfNeeded latest with
        generationPin :=
          ((controller.revokeIfNeeded latest).generationPin.beginComposition applied).1 }
  else controller.stopAndApply
    (controller.generationPin.beginComposition (secureRevisionIfNeeded latest))

def observe (controller : GrimodexCompositionIntegrationController)
    (revision : GrimodexIntegrationRevision) : GrimodexCompositionIntegrationController :=
  if revision.secureInput then controller.revokeIfNeeded revision
  else controller.stopAndApply (controller.generationPin.observe revision)

def endOrReset (controller : GrimodexCompositionIntegrationController)
    (latest : GrimodexIntegrationRevision) : GrimodexCompositionIntegrationController :=
  if latest.secureInput && !controller.secureInput then controller.revokeImmediately latest
  else (controller.called .stopComposition).applyIfAny
    (controller.generationPin.endComposition (secureRevisionIfNeeded latest))

inductive Call
  | prepareFirstInput (latest : GrimodexIntegrationRevision)
  | observe (revision : GrimodexIntegrationRevision)
  | endOrReset (latest : GrimodexIntegrationRevision)
  | revokeImmediately (revision : GrimodexIntegrationRevision)

def Call.revision : Call → GrimodexIntegrationRevision
  | .prepareFirstInput latest => latest
  | .observe revision => revision
  | .endOrReset latest => latest
  | .revokeImmediately revision => revision

def perform (controller : GrimodexCompositionIntegrationController) :
    Call → GrimodexCompositionIntegrationController
  | .prepareFirstInput latest => controller.prepareFirstInput latest
  | .observe revision => controller.observe revision
  | .endOrReset latest => controller.endOrReset latest
  | .revokeImmediately revision => controller.revokeImmediately revision

def after (calls : List Call) : GrimodexCompositionIntegrationController :=
  calls.foldl perform {}

end GrimodexCompositionIntegrationController

end Hazkey
