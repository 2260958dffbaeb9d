import Mathlib.Logic.Function.Basic
import ZingCdn.Library.Transition

/-!
# Parties over a Hostile Wire

A network of parties that keep to a protocol, each with a state of its own, and of others that
do not. Everything ever sent stays on the wire: a packet may arrive at any time, any number of
times, or never. A step of a party may look at the wire and put packets on it; in between,
the others put packets of theirs on it, as far as `forge` lets them.

## Main results

* `Reachable.of_local`: each party on its own makes a run of its own steps.
* `Reachable.local_invariant`: what a party's steps keep, given what is on the wire.
* `Reachable.provenance`: every packet was put on the wire by a party, or forged.
-/

namespace Parties

variable {Party Local Packet : Type*}

/-- What the parties do, and what the others may do. -/
structure Protocol (Party Local Packet : Type*) where
  /-- the states a party starts in -/
  init : Party → Local → Prop
  /-- the wire, the state before, the packets put on the wire, and the state after -/
  step : Party → List Packet → Local → List Packet → Local → Prop
  /-- what somebody who does not keep to the protocol may put on a wire -/
  forge : List Packet → Packet → Prop

/-- The states of the parties, and everything sent so far. -/
structure Network (Party Local Packet : Type*) where
  locals : Party → Local
  wire : List Packet

variable (P : Protocol Party Local Packet)

/-- All parties at their start, and nothing sent. -/
def Initial (net : Network Party Local Packet) : Prop :=
  (∀ n, P.init n (net.locals n)) ∧ net.wire = []

/-- One step of a party, or one forged packet. -/
inductive Step [DecidableEq Party] : Network Party Local Packet → Network Party Local Packet → Prop
  | party {net : Network Party Local Packet} {n : Party} {put : List Packet} {s : Local} :
      P.step n net.wire (net.locals n) put s →
        Step net ⟨Function.update net.locals n s, net.wire ++ put⟩
  | forged {net : Network Party Local Packet} {packet : Packet} :
      P.forge net.wire packet → Step net ⟨net.locals, net.wire ++ [packet]⟩

/-- The states that a party reaches by its own steps, on any wire. -/
abbrev Run (n : Party) : Local → Prop :=
  Transition.Reachable (P.init n) fun s s' => ∃ wire put, P.step n wire s put s'

variable [DecidableEq Party]

/-- The networks that some interleaving leads to. -/
abbrev Reachable : Network Party Local Packet → Prop := Transition.Reachable (Initial P) (Step P)

variable {P} {net net' : Network Party Local Packet}

/-- Seen from one party, a step is one of its own, or leaves it alone. -/
theorem Step.local_cases (h : Step P net net') (n : Party) : net'.locals n = net.locals n ∨
    ∃ put, P.step n net.wire (net.locals n) put (net'.locals n) := by
  cases h with
  | forged _ => exact .inl rfl
  | @party m put s hs =>
      by_cases hn : n = m
      · subst hn
        right
        simpa using ⟨put, hs⟩
      · exact .inl (Function.update_of_ne hn _ _)

/-- **The rule for parties**: what holds of each at its start, is kept while the wire grows,
and is kept by its own steps. -/
theorem Reachable.local_invariant (hnet : Reachable P net) (inv : Party → List Packet → Local → Prop)
    (hinit : ∀ n s, P.init n s → inv n [] s)
    (hgrow : ∀ n wire more s, inv n wire s → inv n (wire ++ more) s)
    (hstep : ∀ n wire s put s', inv n wire s → P.step n wire s put s' → inv n (wire ++ put) s')
    (n : Party) : inv n net.wire (net.locals n) := by
  refine Transition.Reachable.invariant (fun net => ∀ n, inv n net.wire (net.locals n)) ?_ ?_
    hnet n
  · rintro ⟨locals, wire⟩ ⟨hlocals, rfl⟩ n
    exact hinit n _ (hlocals n)
  · rintro _ _ hinv hstep' n
    cases hstep' with
    | @party m put s hs =>
        refine (Function.forall_update_iff _ fun n s => inv n _ s).mpr ⟨?_, fun n _ => ?_⟩ n
        · exact hstep m _ _ _ _ (hinv m) hs
        · exact hgrow n _ _ _ (hinv n)
    | forged _ => exact hgrow n _ _ _ (hinv n)

/-- **A party on its own** makes a run of its own steps. -/
theorem Reachable.of_local (hnet : Reachable P net) (n : Party) : Run P n (net.locals n) :=
  Reachable.local_invariant hnet (fun n _ s => Run P n s) (fun _ _ => .of_init)
    (fun _ _ _ _ h => h) (fun _ _ _ _ _ h hs => h.snoc ⟨_, _, hs⟩) n

/-- **Every packet has an origin**: a party whose steps account for what they put on the wire,
or a forger who saw a part of the wire. -/
theorem Reachable.provenance (hnet : Reachable P net)
    (sent : Party → List Packet → Local → Packet → Prop)
    (hgrow : ∀ n wire more s packet, sent n wire s packet → sent n (wire ++ more) s packet)
    (hkeep : ∀ n wire s put s' packet, sent n wire s packet → P.step n wire s put s' →
      sent n wire s' packet)
    (hput : ∀ n wire s put s', Run P n s → P.step n wire s put s' →
      ∀ packet ∈ put, sent n wire s' packet)
    {packet : Packet} (hpacket : packet ∈ net.wire) :
    (∃ n, sent n net.wire (net.locals n) packet) ∨ ∃ seen, seen <+: net.wire ∧
      P.forge seen packet := by
  let origin (net : Network Party Local Packet) (packet : Packet) : Prop :=
    (∃ n, sent n net.wire (net.locals n) packet) ∨ ∃ seen, seen <+: net.wire ∧ P.forge seen packet
  refine (Transition.Reachable.invariant
    (fun net => Reachable P net ∧ ∀ packet ∈ net.wire, origin net packet) ?_ ?_ hnet).2 packet
    hpacket
  · rintro ⟨locals, wire⟩ ⟨hlocals, rfl⟩
    exact ⟨.of_init ⟨hlocals, rfl⟩, fun packet hmem => by cases hmem⟩
  · rintro net _ ⟨hreach, horigin⟩ hstep
    refine ⟨hreach.snoc hstep, fun packet hmem => ?_⟩
    cases hstep with
    | @party m put s hs =>
        -- what a party has sent it has sent whoever makes the step
        have hkept : ∀ n, sent n _ (net.locals n) packet →
            sent n _ (Function.update net.locals m s n) packet :=
          (Function.forall_update_iff _ fun n s => sent n _ (net.locals n) packet →
            sent n _ s packet).mpr ⟨fun hsent => hkeep m _ _ _ _ _ hsent hs, fun _ _ h => h⟩
        rcases List.mem_append.mp hmem with hold | hnew
        · exact (horigin packet hold).imp
            (fun ⟨n, hsent⟩ => ⟨n, hgrow n _ _ _ _ (hkept n hsent)⟩)
            fun ⟨seen, hseen, hforge⟩ => ⟨seen, hseen.trans (List.prefix_append _ _), hforge⟩
        · refine .inl ⟨m, hgrow m _ _ _ _ ?_⟩
          show sent m _ (Function.update net.locals m s m) packet
          rw [Function.update_self]
          exact hput m _ _ _ _ (Reachable.of_local hreach m) hs packet hnew
    | @forged forgery hforge =>
        rcases List.mem_append.mp hmem with hold | hnew
        · exact (horigin packet hold).imp (fun ⟨n, hsent⟩ => ⟨n, hgrow n _ _ _ _ hsent⟩)
            fun ⟨seen, hseen, hforge⟩ => ⟨seen, hseen.trans (List.prefix_append _ _), hforge⟩
        · obtain rfl := List.mem_singleton.mp hnew
          exact .inr ⟨_, List.prefix_append _ _, hforge⟩

end Parties
