import LiveHls.Binary64
import LiveHls.Bytes
import LiveHls.Calendar
import LiveHls.Catalog
import LiveHls.Codec
import LiveHls.CommandLine.Arguments
import LiveHls.CommandLine.Program
import LiveHls.Config
import LiveHls.Config.Document
import LiveHls.Deadline
import LiveHls.Duration
import LiveHls.Error
import LiveHls.Export
import LiveHls.Latch
import LiveHls.Main
import LiveHls.Mp4.Box
import LiveHls.Mp4.Descriptor
import LiveHls.Mp4.Movie
import LiveHls.Mp4.MovieFragment
import LiveHls.Mp4.Muxer
import LiveHls.Mp4.Track
import LiveHls.Packager
import LiveHls.Packet
import LiveHls.Part
import LiveHls.Playlist.Line
import LiveHls.Playlist.Master
import LiveHls.Rendition.Basic
import LiveHls.Rendition.Indexed
import LiveHls.Rendition.Read
import LiveHls.Rendition.Session
import LiveHls.Saturating
import LiveHls.Segment
import LiveHls.Storage
import LiveHls.Supervisor
import LiveHls.TestPattern
import LiveHls.Text.Hexadecimal
import LiveHls.Text.Quoted
import LiveHls.Text.Unprintable
import LiveHls.Toml.Document
import LiveHls.Toml.Lexeme
import LiveHls.Toml.Value
import LiveHls.Worker
import LiveHls.Proofs.Rendition.Parts
import LiveHls.Proofs.Rendition.Ring
import LiveHls.Proofs.Rendition.Indexed
import LiveHls.Proofs.Rendition.Greedy
import LiveHls.Proofs.Rendition.Waiting
import LiveHls.Proofs.Mp4.Fragments
import LiveHls.Proofs.Mp4.Initialization
import LiveHls.Proofs.Mp4.RoundTrip
import LiveHls.Proofs.Catalog.Sources
import LiveHls.Proofs.Catalog.History
import LiveHls.Proofs.Playlist.Uris
import LiveHls.Proofs.Rendition.Failure
import LiveHls.Proofs.Rendition.Listing
import LiveHls.Proofs.Rendition.AppendOnly
import LiveHls.Proofs.Rendition.Immutable
import LiveHls.Proofs.Catalog.Order
import LiveHls.Proofs.Mp4.Media
import LiveHls.Proofs.Mp4.Framing
import LiveHls.Proofs.Mp4.Movies
import LiveHls.Proofs.Rendition.SegmentMedia
import LiveHls.Proofs.Mp4.InitializationRoundTrip
import LiveHls.Proofs.Catalog.Refusal
import LiveHls.Proofs.Rendition.Rendering
import LiveHls.Proofs.Rendition.Parked
import LiveHls.Proofs.Duration.Seconds
import LiveHls.Proofs.Rendition.Overshoot
import LiveHls.Proofs.Catalog.Handles
import LiveHls.Proofs.Catalog.Shuffle
import LiveHls.Proofs.Catalog.Contribution
import LiveHls.Proofs.Worker.Service
import LiveHls.Proofs.Playlist.Listed
import LiveHls.Proofs.Catalog.InRange
import LiveHls.Proofs.Export.Storing
import LiveHls.Proofs.Export.Files
import LiveHls.Proofs.Export.Closure
import LiveHls.Proofs.Rendition.Covering
import LiveHls.Proofs.Rendition.Lengths
import LiveHls.Proofs.Duration.Ticks
import LiveHls.Proofs.Mp4.Timing
import LiveHls.Proofs.Rendition.Continuity
import LiveHls.Proofs.TestPattern.Ending
import LiveHls.Proofs.Rendition.Numbering
import LiveHls.Proofs.TestPattern.Order
import LiveHls.Proofs.TestPattern.Frames
import LiveHls.Proofs.Mp4.Nesting
import LiveHls.Proofs.Mp4.Patching
import LiveHls.Rendition.Indexed
import LiveHls.Proofs.Rendition.Indexed
