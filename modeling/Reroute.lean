import Reroute.Engine
import Reroute.Entity.Shared
import Reroute.Hook.Onion
import Reroute.Host
import Reroute.Machine.Maps
import Reroute.Script
import Reroute.Proofs.Reading
import Reroute.Proofs.InstructionForm
import Reroute.Proofs.StreamForm
import Reroute.Proofs.Interning
import Reroute.Proofs.StreamItems
import Reroute.Proofs.Retokening
import Reroute.Proofs.RegionNaming
import Reroute.Proofs.BodyForm
import Reroute.Proofs.Cloning
import Reroute.Proofs.Issuing
import Reroute.Proofs.Layering
import Reroute.Proofs.PageMapping
import Reroute.Proofs.PairAccess
import Reroute.Proofs.PatchProtocol
import Reroute.Proofs.Redirecting
import Reroute.Proofs.Failures
import Reroute.Proofs.InstallSteps
import Reroute.Proofs.Installing
import Reroute.Proofs.Running
import Reroute.Proofs.Restoring
import Reroute.Proofs.Places
import Reroute.Proofs.SectionGrammar
import Reroute.Proofs.SectionPlace
import Reroute.Proofs.Traces
import Reroute.Proofs.Robustness
import Reroute.Proofs.Dispatching
import Reroute.Proofs.Linearizing
import Reroute.Hook.Watch
import Reroute.Proofs.Watching
import Reroute.Proofs.Routing
import Reroute.Proofs.DisplayNames
import Reroute.Proofs.SharedScopes
import Reroute.Proofs.PageKeeping
import Reroute.Proofs.StreamLayout
import Reroute.Proofs.SectionLayout
import Reroute.Proofs.SectionChains
import Reroute.Proofs.BodyFormats
import Reroute.Hook.Arrays
import Reroute.Proofs.StreamCalls
import Reroute.Proofs.Invoking
import Reroute.Proofs.HookRuns
import Reroute.Proofs.Crafting
import Reroute.Proofs.Transparency
import Reroute.Proofs.ArgumentSlots
import Reroute.Proofs.Fetching
import Reroute.Proofs.StubRun
import Reroute.Proofs.Converting
import Reroute.Proofs.Reboxing
import Reroute.Proofs.InstructionWriting
import Reroute.Machine.Exchange
import Reroute.Proofs.PairExchange
import Reroute.Bytes.Command
import Reroute.Proofs.CursorRuns
import Reroute.Proofs.MapListing
import Reroute.Machine.Word
import Reroute.Bytes.Access
import Reroute.Proofs.Accessing
import Reroute.Proofs.Jumping
import Reroute.Machine.PageSize
import Reroute.Proofs.PageRanges
import Reroute.Proofs.Widening
