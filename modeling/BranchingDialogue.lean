import BranchingDialogue.Editor
import BranchingDialogue.Main
import BranchingDialogue.Proofs.Graph.Connection
import BranchingDialogue.Proofs.Graph.FreshId
import BranchingDialogue.Proofs.Graph.NewNode
import BranchingDialogue.Proofs.Graph.Repair
import BranchingDialogue.Proofs.Graph.Start
import BranchingDialogue.Proofs.Json.Dialogue
import BranchingDialogue.Proofs.Json.Schema
import BranchingDialogue.Proofs.Play.Copying
import BranchingDialogue.Proofs.Play.Footprint
import BranchingDialogue.Proofs.Play.Journey
import BranchingDialogue.Proofs.Play.Raising
import BranchingDialogue.Proofs.Play.Refusal
import BranchingDialogue.Proofs.Play.Restart
import BranchingDialogue.Proofs.Play.Route
import BranchingDialogue.Proofs.Play.SavedGame
import BranchingDialogue.Proofs.Play.ShownText
import BranchingDialogue.Proofs.Play.TypedFlags
import BranchingDialogue.Proofs.Script.Copy
import BranchingDialogue.Proofs.Script.Creation
import BranchingDialogue.Proofs.Script.Deletion
import BranchingDialogue.Proofs.Script.Kept
import BranchingDialogue.Proofs.Script.Layout
import BranchingDialogue.Proofs.Script.Locality
import BranchingDialogue.Proofs.Script.Narration
import BranchingDialogue.Proofs.Script.Played
import BranchingDialogue.Proofs.Script.Quotation
import BranchingDialogue.Proofs.Script.SkippedChoice
