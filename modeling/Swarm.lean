import Swarm.Announce.Client
import Swarm.Announce.Query
import Swarm.Announce.Reply
import Swarm.Announce.Session
import Swarm.Announce.Settings
import Swarm.Bencode.Decoding
import Swarm.Bencode.Dictionary
import Swarm.Bencode.Encoding
import Swarm.Bencode.Fault
import Swarm.Bencode.Field
import Swarm.Bencode.Span
import Swarm.Bencode.Value
import Swarm.Bytes
import Swarm.Calendar
import Swarm.Count
import Swarm.Digest
import Swarm.Digest.Sha1
import Swarm.Duration
import Swarm.Error
import Swarm.Metainfo.Basic
import Swarm.Metainfo.File
import Swarm.Metainfo.Reading
import Swarm.Net.Address
import Swarm.Net.Host
import Swarm.Net.Percent
import Swarm.Net.Status
import Swarm.Net.Url
import Swarm.Net.Url.Path
import Swarm.Net.Url.Reading
import Swarm.Notice
import Swarm.Peer
import Swarm.Pieces.Bitfield
import Swarm.Proofs.Announce.Atomicity
import Swarm.Proofs.Announce.Client
import Swarm.Proofs.Announce.Completion
import Swarm.Proofs.Announce.Counters
import Swarm.Proofs.Announce.History
import Swarm.Proofs.Announce.PeerBook
import Swarm.Proofs.Announce.Query
import Swarm.Proofs.Announce.Reply
import Swarm.Proofs.Announce.Request
import Swarm.Proofs.Announce.Retry
import Swarm.Proofs.Announce.Session
import Swarm.Proofs.Announce.Traffic
import Swarm.Proofs.Bencode.Canonical
import Swarm.Proofs.Bencode.Dictionary
import Swarm.Proofs.Bencode.Field
import Swarm.Proofs.Bencode.Grammar
import Swarm.Proofs.Bencode.Insertion
import Swarm.Proofs.Bencode.Leaf
import Swarm.Proofs.Bencode.Locality
import Swarm.Proofs.Bencode.Nesting
import Swarm.Proofs.Bencode.Readability
import Swarm.Proofs.Bencode.Reading
import Swarm.Proofs.Bencode.RoundTrip
import Swarm.Proofs.Bencode.Span
import Swarm.Proofs.Bencode.Spelling
import Swarm.Proofs.Bencode.Truncation
import Swarm.Proofs.Bencode.Writing
import Swarm.Proofs.Metainfo.HashSource
import Swarm.Proofs.Metainfo.Layout
import Swarm.Proofs.Metainfo.Path
import Swarm.Proofs.Metainfo.Pieces
import Swarm.Proofs.Metainfo.Positions
import Swarm.Proofs.Metainfo.Reading
import Swarm.Proofs.Metainfo.Release
import Swarm.Proofs.Metainfo.Unread
import Swarm.Proofs.Metainfo.Valid
import Swarm.Proofs.Net.Address
import Swarm.Proofs.Net.Percent
import Swarm.Proofs.Net.Url
import Swarm.Proofs.Peer
import Swarm.Proofs.Pieces.Normalisation
import Swarm.Proofs.Pieces.Ownership
import Swarm.Proofs.Pieces.Transitions
import Swarm.Proofs.Pieces.Wire
import Swarm.Proofs.Text.Numeral
import Swarm.Text.Blank
import Swarm.Text.Numeral
import Swarm.Text.Quoted
import Swarm.Text.Unprintable
import Swarm.Text.Utf8
