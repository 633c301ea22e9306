import ShellTranscript.Proofs.Echo.Bursts
import ShellTranscript.Proofs.Echo.Echoes
import ShellTranscript.Proofs.Echo.Predictions
import ShellTranscript.Proofs.Echo.Reconciliation
import ShellTranscript.Proofs.Recorder.Blank
import ShellTranscript.Proofs.Recorder.Disposal
import ShellTranscript.Proofs.Recorder.Highlights
import ShellTranscript.Proofs.Recorder.Mirrored
import ShellTranscript.Proofs.Recorder.Outcomes
import ShellTranscript.Proofs.Recorder.Refusals
import ShellTranscript.Proofs.Registry.Broadcasts
import ShellTranscript.Proofs.Scope.Closing
import ShellTranscript.Proofs.Screen.Forgotten
import ShellTranscript.Proofs.Screen.Margin
import ShellTranscript.Proofs.Screen.Renderings
import ShellTranscript.Proofs.Session.Prompt
import ShellTranscript.Proofs.Session.Race
import ShellTranscript.Proofs.Session.Resizing
import ShellTranscript.Proofs.Session.Traffic
import ShellTranscript.Proofs.Signal.Escapes
import ShellTranscript.Proofs.Signal.Resync
import ShellTranscript.Proofs.Signal.Stream
import ShellTranscript.Proofs.Signal.Switches
import ShellTranscript.Proofs.Signal.Written
import ShellTranscript.Proofs.Store.History
import ShellTranscript.Proofs.Stored.Blocks
import ShellTranscript.Proofs.Stored.Partial
import ShellTranscript.Proofs.Studio.Provenance
import ShellTranscript.Proofs.Studio.Script
import ShellTranscript.Proofs.Text.Recovery
import ShellTranscript.Proofs.Transcript.Removal
import ShellTranscript.Sampler.Watch
import ShellTranscript.Summary
